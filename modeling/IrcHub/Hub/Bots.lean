import IrcHub.Hub.Purge
import IrcHub.Hub.Revoke

/-!
# `IrcHub.Hub.Bots`: the state of the bots

The bot half of `storage.rs`. `updateEntry` is the one way into the state of a bot, for deltas,
pushes, peer syncs and the config load. It registers a bot it does not hold, keeps one entry per
key (the newer stamp wins, on a tie the greater value), and lets `is_active` follow the `d` entry.
A revoked bot may only come back as its own tombstone.

The update is cut as the source is:

* `updateFieldsOk`, `botValueOk`: what may be stored at all
* `updateRefused`: what the revoke list refuses, before anything is looked at. It goes by the list
  of keys the source names (`revokeGuards`)
* `updateEntryInner`: the update without these rules. A key of the global table goes there
* `revokeAfter`: after a stored value, a revoked bot stays deleted, and a deleted bot with a key
  goes on the revoke list

`BotOp` and `runBots` are runs of everything that writes a bot or the revoke list.

Keys arrive as text. `none` as a result is a crash: a registration under a cut uuid is not found
again. A value is cut to the length of its key before it is stored, so the reader of a long value
gets its beginning.
-/

set_option autoImplicit false

namespace IrcHub.Hub

open Str
open String (utf8Len)

/-! ### Keys and values -/

/-- The keys of a bot's state. -/
def botKeys : List BotKey := [.t, .n, .h, .pub, .seen, .d, .hl]

/-- The per-bot key of a name. -/
def botKeyOf (key : Str) : Option BotKey := botKeys.find? fun k => k.name == key

/-- The record kind of a name. -/
def globalKeyOf (key : Str) : Option GlobalKey :=
  [GlobalKey.a, .p, .c, .m, .o, .C, .D, .B].find? fun k => [k.tag] == key

/-- A stored field: no control byte, and no bar unless the value has fields of its own. -/
def fieldOk (s : Str) (bar : Bool) : Bool :=
  s.all fun c => decide (c.toNat ≥ 0x20) && c.toNat != 0x7f && (bar || c != '|')

/-- `nick!user@host`: three parts, printable, no wildcard. -/
def hostmaskLiteral (h : Str) : Bool :=
  match splitOnce '!' h with
  | none => false
  | some (nick, rest) =>
    match splitOnce '@' rest with
    | none => false
    | some (user, host) =>
      !nick.isEmpty && !user.isEmpty && !host.isEmpty
        && !host.contains '!' && !host.contains '@'
        && h.all fun c => decide (c.toNat > 0x20) && decide (c.toNat < 0x7f)
          && c != '*' && c != '?' && c != '|'

/-- One hub of a hub list, `addr/fp`. -/
def hublistEntryOk (ent : Str) : Bool :=
  match splitOnce '/' ent with
  | none => false
  | some (addr, fp) =>
    decide (utf8Len addr ≤ hlAddrMax) && decide (utf8Len fp = hlFpLen)
      && addr.all (fun c => c.isAlphanum || ".:_[]-".toList.contains c)
      && fp.all fun c => c.isDigit || ('a' ≤ c && c ≤ 'f')

/-- The hubs a bot dials: a comma-separated list, possibly empty. -/
def hublistValid (v : Str) : Bool :=
  v.isEmpty || (decide ((v.splitOn ',').length ≤ hlEntriesMax)
    && (v.splitOn ',').all hublistEntryOk)

/-- The longest value of a key. -/
def botValueMax : BotKey → Nat
  | .h => maxMaskLen - 1
  | .n => maxNick - 1
  | .pub => combinedKeyB64
  | .hl => hlValueMax
  | .seen | .d | .t => 31

/-- The bound on a value before it reaches the record. -/
def botValueOk (key : BotKey) (value : Str) : Bool :=
  decide (utf8Len value ≤ botValueMax key) && (decide (key ≠ .hl) || hublistValid value)

/-! ### One bot -/

/-- Position of a bot. -/
def botFind (s : HubState) (uuid : Str) : Option Nat :=
  s.bots.findIdx? (fun b => b.uuid == uuid)

/-- Find the bot, or register it as a live one when there is room. -/
def getOrCreateBot (s : HubState) (uuid : Str) : Option HubState :=
  -- a bot of that uuid is there
  if (botFind s uuid).isSome then some s
  else if s.bots.length < maxBots then
    some { s with bots := s.bots ++ [{ uuid := trunc uuid 64, isActive := true }] }
  else none

/-- The bot with entry `i` rewritten, or one more entry. Whether it is live follows `d`. -/
def BotConfig.write (b : BotConfig) (entries : List (ConfigEntry BotKey)) (key : BotKey)
    (value : Str) : BotConfig :=
  { b with entries := entries, isActive := if key = .d then value != ['1'] else b.isActive }

/-- Store one value of a bot, `none` when it does not win. The sync time is no entry. -/
def BotConfig.put (b : BotConfig) (key : BotKey) (value : Str) (ts : Int) : Option BotConfig :=
  -- the sync time is no entry and only goes up
  if key = .t then
    if ts > b.lastSyncTime then some { b with lastSyncTime := ts } else none
  -- a host mask is one host
  else if key = .h && !value.isEmpty && !hostmaskLiteral value then none
  else
    let stored := trunc value 1024
    match b.entries.findIdx? (fun e => e.key = key) with
    | some i =>
      match b.entries[i]? with
      | none => none
      | some e =>
        -- older loses; of one stamp the greater text stays
        if ts < e.timestamp then none
        else if ts > e.timestamp || stored > e.value then
          some (b.write (b.entries.set i { e with value := stored, timestamp := ts }) key value)
        else none
    | none =>
      if b.entries.length < maxBotEntries then
        some (b.write
          (b.entries ++ [{ key := key, value := stored, timestamp := ts, lastUsed := 0 }]) key
          value)
      else none

/-- A per-bot key in place of a uuid. -/
def uuidReserved (uuid : Str) : Bool :=
  [BotKey.n, .h, .seen, .pub, .d, .t].any fun k => k.name == uuid

/-- A per-bot value, once its bot is there. -/
def updateBot (s : HubState) (uuid key value : Str) (ts : Int) : Option (HubState × Bool) :=
  match botKeyOf key with
  | none => some (s, false)
  | some k =>
    -- too long, or a hub list that is none
    if !botValueOk k value then some (s, false)
    else
      match botFind s uuid with
      | none => none
      | some bi =>
        match s.bots[bi]? with
        | none => none
        | some b =>
          match b.put k value ts with
          | none => some (s, false)
          | some b' => some ({ s with bots := s.bots.set bi b' }, true)

/-- Whether all the texts of an update may be stored. -/
def updateFieldsOk (uuid key value extra op : Str) : Bool :=
  let bar := [GlobalKey.c, .m, .o].any fun k => [k.tag] == key
  fieldOk uuid false && fieldOk key false && fieldOk value bar && fieldOk extra bar
    && fieldOk op false

/-- The update without the rules of the revoke list. -/
def updateEntryInner (clk : Clock) (s : HubState) (uuid key value extra op : Str) (ts : Int) :
    Option (HubState × Bool) :=
  -- a text with a bar or a line end, or a stamp too far ahead
  if !updateFieldsOk uuid key value extra op || tsAhead clk ts then some (s, false)
  else
    match globalKeyOf key with
    -- a global key writes to the global table, whatever uuid came with it
    | some .c => some (updateGlobalEntry clk s .c value extra op ts)
    | some .m => some (updateGlobalEntry clk s .m value extra op ts)
    | some .o => some (updateGlobalEntry clk s .o value extra op ts)
    | some _ => some (s, false)
    | none =>
      -- a key in place of a uuid is a line that was cut wrongly
      if uuidReserved uuid then some (s, false)
      else
        match getOrCreateBot s uuid with
        -- no room for another bot
        | none => some (s, false)
        | some s => updateBot s uuid key value ts

/-! ### The revoke rules -/

/-- The keys the revoke rules name. -/
def revokeGuards (key : Str) : Bool :=
  [BotKey.d, .pub, .n, .h, .t, .seen].any fun k => k.name == key

/-- What an update is refused for before it is looked at: a revoked bot that is not there, unless
this is its tombstone; a tombstone older than the purge, unless its bot is there. -/
def updateRefused (clk : Clock) (s : HubState) (uuid key value : Str) (ts : Int) : Bool :=
  (revokeGuards key && isRevoked s uuid && key != BotKey.d.name && (botFind s uuid).isNone)
    || (key == BotKey.d.name && value == ['1'] && purgeFloorBlocks clk s ts
      && (botFind s uuid).isNone)

/-- After a stored per-bot value: a revoked bot stays deleted, and a deleted bot with a key joins
the revoke list. -/
def revokeAfter (s : HubState) (uuid key : Str) : HubState :=
  match botFind s uuid with
  | none => s
  | some i =>
    -- a revoked bot stays deleted
    let s :=
      if isRevoked s uuid
        then { s with bots := s.bots.modify i fun b => { b with isActive := false } }
      else s
    match s.bots[i]? with
    | none => s
    | some b =>
      -- a deleted bot with a key joins the list
      if !b.isActive && [BotKey.d, .pub, .n].any (fun k => k.name == key)
        then (revokeFromBot s b).1
      else s

/-- Store one value of a bot, or a global entry. -/
def updateEntry (clk : Clock) (s : HubState) (uuid key value extra op : Str) (ts : Int) :
    Option (HubState × Bool) :=
  if updateRefused clk s uuid key value ts then some (s, false)
  else
    match updateEntryInner clk s uuid key value extra op ts with
    | none => none
    -- a refused value brings no rules with it
    | some (s, ok) => some (if ok && revokeGuards key then revokeAfter s uuid key else s, ok)

/-! ### A new bot -/

/-- Register a bot an admin created, with its nick, its key and now as the time it was seen. -/
def addBotMemory (clk : Clock) (s : HubState) (uuid nick pubKey : Str) : Option HubState :=
  -- no room: nothing is registered
  if (botFind s uuid).isSome || s.bots.length ≥ maxBots then some s
  else do
    let s := { s with bots := s.bots ++ [{ uuid := trunc uuid 64, isActive := true }] }
    let s ← updateEntry clk s uuid BotKey.n.name nick [] [] clk.now
    let s ← updateEntry clk s.1 uuid BotKey.pub.name pubKey [] [] clk.now
    let s ← updateEntry clk s.1 uuid BotKey.seen.name [] [] [] clk.now
    some s.1

/-- The admin's `bot add`: a uuid and a key of the right shape, and a uuid that is neither revoked
nor registered. -/
def createBot (clk : Clock) (s : HubState) (nick uuid pubKey : Str) : Option HubState :=
  if !uuidShape uuid || !pubOk pubKey || isRevoked s uuid || (botFind s uuid).isSome then some s
  else addBotMemory clk s uuid nick pubKey

/-! ### Runs -/

/-- The operations on the bots and the revoke list. -/
inductive BotOp
  /-- Store one value, as a delta, a push, a peer sync or the config load offers it. -/
  | update (uuid key value extra op : Str) (ts : Int)
  /-- Merge an entry into the revoke list. -/
  | merge (inp : Revoked)
  /-- The admin's `bot add`. -/
  | create (nick uuid pubKey : Str)
  /-- A revoked bot wiped itself. -/
  | wiped (uuid : Str) (now : Int)
  /-- Purge the tombstones below a cutoff. -/
  | purge (cutoff : Int)
  /-- Any change that leaves the bots and the revoke list alone. -/
  | elsewhere (t : HubState)

/-- One operation, `none` when the hub crashes. -/
def BotOp.run (clk : Clock) (s : HubState) : BotOp → Option HubState
  | .update uuid key value extra op ts =>
    (updateEntry clk s uuid key value extra op ts).map (·.1)
  | .merge inp => some (revokeMerge s inp).1
  | .create nick uuid pubKey => createBot clk s nick uuid pubKey
  | .wiped uuid now => some (revokeMarkWiped s uuid now)
  | .purge cutoff => some (executePurge clk s cutoff)
  | .elsewhere t => some { t with bots := s.bots, revoked := s.revoked }

/-- One operation of a hub that may have crashed. -/
def botStep (s : Option HubState) (p : Clock × BotOp) : Option HubState := s.bind (p.2.run p.1)

/-- A run: operations in order, each under its clock. -/
def runBots (ops : List (Clock × BotOp)) : Option HubState := ops.foldl botStep (some {})

end IrcHub.Hub
