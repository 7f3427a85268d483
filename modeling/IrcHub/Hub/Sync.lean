import IrcHub.Hub.Bots
import IrcHub.Hub.Users

/-!
# `IrcHub.Hub.Sync`: the full sync between hubs

The full sync between hubs, from `mesh.rs`. `generateSyncPacket` is a hub's full state as text,
one line per record, and `processPeerSync` is what a hub does with such a text: it cuts it at the
first NUL, splits it into lines and offers each line to the store its tag names. What changed is
forwarded to the other peers.

- records out: `syncRecords` are the lines in the order of the generator, and the generator stops
  or skips where the payload would reach `maxSyncPayload`
- lines in: `syncLine`, with one branch per tag
- `syncPurge`: a purge a peer asked for is run once, and passed on. A hub remembers the last ones
  by their id
- `syncFinish`: after the lines, records of users that were merged away go, new users get their
  rights, and the admin floor is looked at

The two directions are separate code, and nothing but the text connects them: a record that holds
a bar or a newline where the format does not expect one is read as something else.

Left out: the invites passed through to the bots, logging and statistics, and the peers a payload
is kept from. A frame is what arrived after the five bytes of its header, as text.
-/

set_option autoImplicit false

namespace IrcHub.Hub

open Str
open String (utf8Len)

/-! ### Lines out -/

/-- Old record kinds never leave the hub in a full sync. -/
def syncedKey : GlobalKey → Bool
  | .a | .o | .m | .p => false
  | .c | .C | .D | .B => true

/-- The line of a global entry. -/
def formatGlobal (e : GlobalEntry) : Str :=
  e.key.tag :: '|' :: e.value ++ '|' :: ofInt e.timestamp ++ ['\n']

/-- The line of what the bots saw of a channel. -/
def learnedFormat (l : ChanLearned) : Str :=
  "K|".toList ++ l.chan ++ '|' :: l.key ++ '|' :: ofInt l.modes ++ '|' :: ofInt l.ts ++ ['\n']

/-- The line of the network opt flags. -/
def optFormat (s : HubState) : Str :=
  "opt|".toList ++ s.optFlags ++ '|' :: ofInt s.optFlagsTs ++ ['\n']

/-- The line of a bot's entry. `seen` and `t` carry no value. -/
def formatBotEntry (b : BotConfig) (e : ConfigEntry BotKey) : Str :=
  if e.key = .seen || e.key = .t then
    "b|".toList ++ b.uuid ++ '|' :: e.key.name ++ '|' :: ofInt e.timestamp ++ ['\n']
  else
    "b|".toList ++ b.uuid ++ '|' :: e.key.name ++ '|' :: e.value ++ '|' :: ofInt e.timestamp
      ++ ['\n']

/-- Lines one by one, up to the first that does not fit. -/
def emitUntil : Str → List Str → Str
  | out, [] => out
  | out, line :: lines =>
    if utf8Len out + utf8Len line ≥ maxSyncPayload then out else emitUntil (out ++ line) lines

/-- A section that goes out whole or not at all. -/
def emitBlock (out block : Str) : Str :=
  if utf8Len out + utf8Len block < maxSyncPayload then out ++ block else out

/-- The lines of the entries of the bots. -/
def botLines (s : HubState) : List Str := s.bots.flatMap fun b => b.entries.map (formatBotEntry b)

/-- The hub's full state, for anti-entropy. -/
def generateSyncPacket (s : HubState) : Str :=
  let out := emitUntil [] ((s.globalEntries.filter fun e => syncedKey e.key).map formatGlobal)
  let out := out ++ s.chanLearned.flatMap learnedFormat
  let out := emitUntil out (s.userRecords.map formatUserRecord)
  let out := emitUntil out (s.maskRecords.map formatMaskRecord)
  let out := emitBlock out (accessAppend s fun _ => true)
  let out := if s.optFlagsTs > 0 then emitBlock out (optFormat s) else out
  let out := emitBlock out (gsettingAppend s ++ revokeAppend s)
  emitUntil out (botLines s)

/-- The line of every record a full sync is made of, in the order of the generator. -/
def syncRecords (s : HubState) : List Str :=
  (s.globalEntries.filter fun e => syncedKey e.key).map formatGlobal
    ++ s.chanLearned.map learnedFormat
    ++ s.userRecords.map formatUserRecord
    ++ s.maskRecords.map formatMaskRecord
    ++ (s.uflagRecords.map formatUflag ++ s.uchanRecords.map formatUchan)
    ++ (if s.optFlagsTs > 0 then [optFormat s] else [])
    ++ ((if s.purgeDaysTs > 0 then [gsettingFormat s] else []) ++ s.revoked.map revokeFormat)
    ++ botLines s

/-- The lines a hub reads from a frame. -/
def frameLines (frame : Str) : List Str :=
  ((trunc (untilNul frame) maxSyncPayload).splitOn '\n').filter fun line => !line.isEmpty

/-! ### Purges from a peer -/

/-- The text after a tag. -/
def afterTag (tag line : Str) : Option Str :=
  if tag.isPrefixOf line then some (line.drop tag.length) else none

/-- `cutoff` or `cutoff|id`, the id up to `purgeIdHex` hexadecimal digits. -/
def parsePurgeLine (body : Str) : Option (Int × Str) :=
  if !(body.head?.map Char.isDigit).getD false then none
  else
    let (v, used) := strtoll body
    if v < 0 then none
    else
      match body.drop used with
      | [] => some (v, [])
      | '|' :: h =>
        if h.isEmpty || utf8Len h > purgeIdHex || !h.all isHexDigit then none else some (v, h)
      | _ => none

/-- A purge this hub ran a short time ago. -/
def isPurgeRecent (clk : Clock) (s : HubState) (cutoff : Int) (id : Str) : Bool :=
  s.recentPurges.any fun p =>
    decide (p.cutoff = cutoff) && p.id == id && decide (clk.now - p.receivedAt < purgeDedupWindow)

/-- The place of the purge received first. -/
def oldestPurge (ps : List RecentPurge) : Nat :=
  (ps.zipIdx.foldl (fun best p =>
    match best with
    | none => some p
    | some b => if p.1.receivedAt < b.1.receivedAt then some p else best) none
  |>.map (·.2)).getD 0

/-- Remember a purge, in the place of the oldest one when there is no room. -/
def recordRecentPurge (clk : Clock) (s : HubState) (cutoff : Int) (id : Str) : HubState :=
  let p : RecentPurge :=
    { cutoff := cutoff, id := trunc id (purgeIdHex + 1), receivedAt := clk.now }
  match s.recentPurges.findIdx? fun q => decide (q.cutoff = cutoff) && q.id == id with
  | some i => { s with recentPurges := s.recentPurges.set i p }
  | none =>
    if s.recentPurges.length < maxRecentPurges then
      { s with recentPurges := s.recentPurges ++ [p] }
    else { s with recentPurges := s.recentPurges.set (oldestPurge s.recentPurges) p }

/-! ### Lines in -/

/-- Forward a line while the payload has this much room. -/
def SyncCounters.sendWithin (cnt : SyncCounters) (room : Nat) (line : Str) : SyncCounters :=
  if utf8Len cnt.forward + room < maxSyncPayload then { cnt with forward := cnt.forward ++ line }
  else cnt

/-- One more update the bots need not hear of. -/
def SyncCounters.count (cnt : SyncCounters) (n : Nat) : SyncCounters :=
  { cnt with updates := cnt.updates + n }

/-- Run a purge a peer asked for, once, and pass it on. -/
def syncPurge (clk : Clock) (s : HubState) (line body : Str) (cnt : SyncCounters) :
    HubState × SyncCounters :=
  match parsePurgeLine body with
  | none => (s, cnt)
  | some (cutoff, id) =>
    if isPurgeRecent clk s cutoff id then (s, cnt)
    else
      let s := recordRecentPurge clk s cutoff id
      (broadcastSyncToPeers (executePurge clk s cutoff) line, cnt.count (purgeCount clk s cutoff))

/-- A line `chan|key|modes|ts` of what the bots saw. -/
def learnedIngest (clk : Clock) (s : HubState) (body : Str) : HubState × Bool :=
  if utf8Len body ≥ kLineMax then (s, false)
  else
    match body.splitOn '|' with
    | [chan, key, modes, ts] =>
      if !recNumOk modes || utf8Len modes > 3 || !recNumOk ts then (s, false)
      else learnedPut clk s chan key (atoll modes) (atoll ts)
    | _ => (s, false)

/-- Letters and stamp of `letters|ts`. The number ends the text or stops at a bar or a carriage
return. -/
def parseOptValue (v : Str) : Option (Str × Int) :=
  match splitOnce '|' v with
  | none => none
  | some (letters, rest) =>
    let (ts, used) := strtoll rest
    if used = 0 || ts ≤ 0 then none
    else
      match rest[used]? with
      | none | some '|' | some '\r' =>
        some ((letters.filter Char.isAlphanum).take maxOptFlags, ts)
      | _ => none

/-- A line of the opt flags. -/
def syncOpt (clk : Clock) (s : HubState) (line body : Str) (cnt : SyncCounters) :
    HubState × SyncCounters :=
  match parseOptValue body with
  | none => (s, cnt)
  | some (flags, ts) =>
    if optAccepts clk ts flags s.optFlagsTs s.optFlags then
      ({ s with optFlags := flags, optFlagsTs := ts },
        cnt.push.sendWithin (utf8Len line + 64) (line ++ ['\n']))
    else (s, cnt)

/-- A line of the revoke list. -/
def syncRevoke (s : HubState) (body : Str) (cnt : SyncCounters) : HubState × SyncCounters :=
  match revokeParse body with
  | none => (s, cnt)
  | some rv =>
    let p := revokeMerge s rv
    if p.2 then
      (p.1,
        match (revokeFind p.1 rv.uuid).bind (p.1.revoked[·]?) with
        | some r => (cnt.count 1).sendWithin rvLineMax (revokeFormat r)
        | none => cnt.count 1)
    else (p.1, cnt)

/-- The first value field of a line, when it ends before its 40th byte. -/
def firstValue (vstart : Str) : Str :=
  match splitOnce '|' vstart with
  | some (f, _) => if utf8Len f < 40 then f else []
  | none => []

/-- A line of the global table. Users and usermasks have a uuid in front; the retired shapes of
these lines are dropped. -/
def syncGlobal (clk : Clock) (s : HubState) (key : GlobalKey) (vstart line : Str)
    (cnt : SyncCounters) : HubState × SyncCounters :=
  -- the newer format starts with a uuid, and only users and masks have one
  let newFmt := hasUuidDashes (firstValue vstart)
  let isUser := key = .a || key = .o
  if newFmt && isUser then syncUserRecord clk s key.tag vstart cnt
  else if newFmt && key = .m then syncMaskRecord clk s vstart line cnt
  -- the older format of a user carries nothing that is kept
  else if key = .p || isUser then (s, cnt)
  else
    match rsplitOnce '|' vstart with
    | none => (s, cnt)
    | some (v, tsText) =>
      if v.isEmpty then (s, cnt)
      else
        let val := trunc v 1024
        let ts := atoll tsText
        let p := storeGlobalEntryRaw clk s key val ts
        let fwd := key.tag :: '|' :: val ++ '|' :: ofInt ts ++ ['\n']
        -- what is stored goes on to the other peers
        if p.2 then (p.1, cnt.push.sendWithin (utf8Len fwd + 1200) fwd) else (p.1, cnt)

/-- Value, middle and op of a combined value that came with a bot's line. -/
def botValueParts (key val : Str) : Str × Str × Str :=
  if key == [GlobalKey.c.tag] || key == [GlobalKey.o.tag] then
    match splitOnce '|' val with
    | none => ([], [], [])
    | some (v, rest) =>
      -- the op stands behind the last bar, and what is between may hold bars
      match rsplitOnce '|' rest with
      | none => (trunc v 512, [], [])
      | some (extra, op) => (trunc v 512, trunc extra 256, trunc op 16)
  else if key == [GlobalKey.m.tag] then
    match splitOnce '|' val with
    | none => ([], [], [])
    | some (v, op) => (trunc v 512, [], trunc op 16)
  else ([], [], [])

/-- A bot's line `uuid|key|value|ts`, or `uuid|seen|ts`. -/
def syncBotEntry (clk : Clock) (s : HubState) (ptr : Str) (cnt : SyncCounters) :
    Option (HubState × SyncCounters) :=
  match splitOnce '|' ptr with
  | none => some (s, cnt)
  | some (u, rest) =>
    match splitOnce '|' rest with
    | none => some (s, cnt)
    | some (k, tail) =>
      let uuid := trunc u 64
      let key := trunc k 32
      -- the two keys whose line may lack a value
      let meta_ := key == BotKey.seen.name || key == BotKey.t.name
      let head := "b|".toList ++ uuid ++ '|' :: key ++ ['|']
      match rsplitOnce '|' tail with
      | none =>
        if !meta_ then some (s, cnt)
        else
          match updateEntry clk s uuid key [] [] [] (atoll tail) with
          | none => none
          | some (s, stored) =>
            let line := head ++ ofInt (atoll tail) ++ ['\n']
            some (s, if stored then (cnt.count 1).sendWithin (utf8Len line) line else cnt)
      | some (v, tsText) =>
        let val := trunc v 1024
        let ts := atoll tsText
        let (value, extra, op) := botValueParts key val
        -- a combined value is handed over in its parts, any other one whole
        match updateEntry clk s uuid key (if value.isEmpty then val else value) extra op ts with
        | none => none
        | some (s, stored) =>
          let line := head ++ val ++ '|' :: ofInt ts ++ ['\n']
          some (s,
            if stored then
              (if meta_ then cnt.count 1 else cnt.push).sendWithin (utf8Len line + 1200) line
            else cnt)

/-- The record kind of a line that has one, and its value. -/
def globalLine (line : Str) : Option (GlobalKey × Str) :=
  match splitOnce '|' line with
  | none => none
  | some (k, vstart) => (globalKeyOf k).map fun key => (key, vstart)

/-- The stores a line may name by a tag of its own. -/
def syncTagged (clk : Clock) (s : HubState) (line : Str) (cnt : SyncCounters) :
    Option (HubState × SyncCounters) :=
  match afterTag "PURGE|".toList line with
  | some body => some (syncPurge clk s line body cnt)
  | none =>
    -- an invite is between bots, and not stored
    if (afterTag "invite|".toList line).isSome then some (s, cnt)
    else
      match (afterTag "uf|".toList line).map (Prod.mk 'f') <|>
          (afterTag "uc|".toList line).map (Prod.mk 'c') with
      | some (kind, body) =>
        let p := accessIngest clk s kind body true
        some (p.1, if p.2 = some true then cnt.push.sendWithin ucLineMax (line ++ ['\n'])
          else cnt)
      | none =>
        match afterTag "K|".toList line with
        | some body =>
          let p := learnedIngest clk s body
          some (p.1, if p.2 then cnt.push.sendWithin kLineMax (line ++ ['\n']) else cnt)
        | none =>
          match afterTag "opt|".toList line with
          | some body => some (syncOpt clk s line body cnt)
          | none =>
            match afterTag "hs|".toList line with
            | some body =>
              let p := gsettingIngest clk s body
              some (p.1,
                if p.2 = some true then (cnt.count 1).sendWithin hsLineMax (line ++ ['\n'])
                  else cnt)
            | none => (afterTag "rv|".toList line).map fun body => syncRevoke s body cnt

/-- One line of a peer. Without a tag of its own it is a record of the global table or of a
bot. -/
def syncLine (clk : Clock) (p : HubState × SyncCounters) (line : Str) :
    Option (HubState × SyncCounters) :=
  match syncTagged clk p.1 line p.2 with
  | some q => some q
  | none =>
    match afterTag "b|".toList line with
    | some ptr => syncBotEntry clk p.1 ptr p.2
    | none =>
      match globalLine line with
      | some (key, vstart) => some (syncGlobal clk p.1 key vstart line p.2)
      | none => syncBotEntry clk p.1 line p.2

/-- The lines of a frame in order, `none` when the hub crashed on one. -/
def syncLines (clk : Clock) (p : HubState × SyncCounters) (lines : List Str) :
    Option (HubState × SyncCounters) :=
  lines.foldlM (syncLine clk) p

/-- After the lines of a frame: records of users merged away go, new users get their default
rights, and if anything changed the last full admins come back and the news go out. -/
def syncFinish (clk : Clock) (s : HubState) (cnt : SyncCounters) : HubState :=
  let m := accessMigrate clk (accessPrune s)
  if cnt.updates = 0 && m.2 = 0 then m.1
  else
    let r := adminFloorRestore clk m.1
    let s := match r.2 with
      | some lines => if lines.isEmpty then r.1 else broadcastSyncToPeers r.1 lines
      | none => r.1
    if cnt.forward.isEmpty then s else broadcastSyncToPeers s cnt.forward

/-- Apply a frame of a peer. -/
def processPeerSync (clk : Clock) (s : HubState) (frame : Str) : Option HubState :=
  (syncLines clk (s, {}) (frameLines frame)).map fun p => syncFinish clk p.1 p.2

end IrcHub.Hub
