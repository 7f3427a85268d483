import IrcHub.Hub.Access
import IrcHub.Hub.Cstr
import IrcHub.Hub.Records

/-!
# `IrcHub.Hub.Channels`: channel records, their cascade, and what the bots saw

The channel records of `storage.rs`, their cascade, and what the bots saw. A `c` record is
`chan|key|op` or `chan|key|modes|op`. Two paths store one:

* `updateGlobalEntry` composes the value from its fields, as a bot's push or the console does
* `storeGlobalEntryRaw` takes the value as it arrived from a peer

Both keep the stored spelling of the channel, both decide by `lwwAccepts`, and both take the
channel's settings, bans and bindings along when they overwrite a held record by a delete
(`chanCascadeDel`). A delete of a channel the hub does not hold is stored without a cascade.

The cascade walks the global table and the bindings, writes a tombstone of the delete's stamp over
each live record of the channel, and collects a line for each (`Cascade`). The text goes to the
peers when the buffer is full and at the end (`announceLine`), so what is announced depends on
nothing but what was written.

`learnedPut` stores what a bot reports of a live channel. The slots are a small table of their
own, without tombstones: they go with their channel (`learnedDrop`).
-/

set_option autoImplicit false

namespace IrcHub.Hub

open Str
open Table (swapRemove)
open String (utf8Len)

/-! ### What the bots saw (`K` lines) -/

/-- The stored spelling of a channel with a live record. -/
def chanLive (s : HubState) (chan : Str) : Option Str :=
  match globalFind s .c chan with
  | none => none
  | some i =>
    match s.globalEntries[i]? with
    | none => none
    | some e =>
        if globalValueActive e.value then some (trunc (firstField e.value) maxChan) else none

/-- Slot of a channel. -/
def learnedIndex (s : HubState) (chan : Str) : Option Nat :=
  s.chanLearned.findIdx? (fun l => eqIc l.chan chan)

/-- A channel key as the bots report it. -/
def learnedKeyOk (k : Str) : Bool :=
  decide (utf8Len k < maxKey)
    && k.all fun c => decide (c.toNat > 0x20) && c != ',' && c != '|' && decide (c.toNat < 0x7f)

/-- The text a tie between two reports is decided by. -/
def learnedText (key : Str) (modes : Int) : Str := key ++ '|' :: ofInt modes

/-- Store a report, only while the channel is live. -/
def learnedPut (clk : Clock) (s : HubState) (chan key : Str) (modes ts : Int) :
    HubState × Bool :=
  -- a report is about a channel that could be managed, and about modes that are kept
  if ts ≤ 0 || tsAhead clk ts || !recChanOk chan false || !learnedKeyOk key || modes < 0
      || (modes.toNat ||| kModesMask) != kModesMask then (s, false)
  else
    match chanLive s chan with
    | none => (s, false)
    | some name =>
      match learnedIndex s name with
      | some i =>
        match s.chanLearned[i]? with
        | none => (s, false)
        | some l =>
          -- of one stamp the greater text stays
          if ts < l.ts || (ts = l.ts && learnedText key modes ≤ learnedText l.key l.modes) then
            (s, false)
          else
            ({ s with
                chanLearned := s.chanLearned.set i
                  { l with key := key, modes := modes, ts := ts } },
              true)
      | none =>
        -- no slot is free
        if s.chanLearned.length ≥ maxChannels then (s, false)
        else
          ({ s with
              chanLearned :=
                s.chanLearned ++ [{ chan := name, key := key, modes := modes, ts := ts }] },
            true)

/-- Forget a channel's slot: the channel went. -/
def learnedDrop (s : HubState) (chan : Str) : HubState :=
  match learnedIndex s chan with
  | some i => { s with chanLearned := swapRemove s.chanLearned i }
  | none => s

/-! ### The cascade of a channel delete -/

/-- Hand a payload to the peer links. -/
def broadcastSyncToPeers (s : HubState) (payload : Str) : HubState :=
  { s with peerOut := s.peerOut ++ [payload] }

/-- Collect a line of the announcement, sending the buffer when it is full. -/
def announceLine (s : HubState) (out line : Str) : HubState × Str :=
  if utf8Len out + utf8Len line ≥ cascadeFlush then (broadcastSyncToPeers s out, line)
  else (s, out ++ line)

/-- Canonical tombstone of a held value: every hub writes the same text. -/
def tombstoneOf (key : GlobalKey) (value : Str) : Str :=
  if key = .C then ident key value ++ "|||del".toList else ident key value ++ "|0||||del".toList

/-- What the cascade carries along: the state, the records changed, the lines to announce. -/
structure Cascade where
  state : HubState
  changed : Nat := 0
  out : Str := []

/-- Announce one changed record. -/
def Cascade.note (c : Cascade) (s : HubState) (announce : Bool) (line : Str) : Cascade :=
  if announce then
    let p := announceLine s c.out line
    { state := p.1, changed := c.changed + 1, out := p.2 }
  else { state := s, changed := c.changed + 1, out := c.out }

/-- Delete entry `i` if it is a live setting or ban of the channel. -/
def cascadeEntry (clk : Clock) (chan : Str) (ts : Int) (announce : Bool) (c : Cascade) (i : Nat) :
    Cascade :=
  match c.state.globalEntries[i]? with
  | none => c
  | some e =>
    -- settings and bans of this channel that are live; the rest is left
    if !(e.key = .C || e.key = .B) || !entryActive e || !entryChanEq e chan then c
    else
      let nv := tombstoneOf e.key e.value
      if utf8Len nv ≥ 1024 then c
      else
        let p := putRecord clk c.state e.key nv ts
        -- refused: the entry stays, and is not counted
        if !p.2 then { c with state := p.1 }
        else c.note p.1 announce (e.key.tag :: '|' :: nv ++ '|' :: ofInt ts ++ ['\n'])

/-- The walk over the table from position `i`. A delete of a held record never changes the
length of the table, so the length at the start is fuel enough. -/
def cascadeEntries (clk : Clock) (chan : Str) (ts : Int) (announce : Bool) :
    Nat → Nat → Cascade → Cascade
  | 0, _, c => c
  | fuel + 1, i, c =>
    if i < c.state.globalEntries.length then
      cascadeEntries clk chan ts announce fuel (i + 1) (cascadeEntry clk chan ts announce c i)
    else c

/-- Delete one oper binding of the channel. -/
def cascadeBinding (clk : Clock) (ts : Int) (announce : Bool) (c : Cascade) (hit : Str × Str) :
    Cascade :=
  let p := uchanPut clk c.state hit.1 hit.2 false ts
  -- refused: the binding stays
  if !p.2 then { c with state := p.1 }
  else if !announce then { c with state := p.1, changed := c.changed + 1 }
  else
    match uchanFind p.1 hit.1 hit.2 with
    | none => { c with state := p.1, changed := c.changed + 1 }
    | some ri =>
      match p.1.uchanRecords[ri]? with
      | none => { c with state := p.1, changed := c.changed + 1 }
      | some r => c.note p.1 true (formatUchan r)

/-- The live bindings of a channel. `"*"` is not a channel and stays. -/
def cascadeHits (s : HubState) (chan : Str) : List (Str × Str) :=
  (s.uchanRecords.filter fun r => r.isActive && r.chan != ['*'] && eqIc r.chan chan).map
    fun r => (r.uuid, r.chan)

/-- Write `del` with stamp `ts` on the channel's settings, bans and bindings, last-writer-wins
deciding each, and forget what the bots saw of it. Returns how many records changed. -/
def chanCascadeDel (clk : Clock) (s : HubState) (chan : Str) (ts : Int) (announce : Bool) :
    HubState × Nat :=
  -- what the bots saw of the channel is of no use any more
  let s := learnedDrop s chan
  let c := cascadeEntries clk chan ts announce s.globalEntries.length 0 { state := s }
  let c := (cascadeHits c.state chan).foldl (cascadeBinding clk ts announce) c
  let s := if c.out.isEmpty then c.state else broadcastSyncToPeers c.state c.out
  (s, c.changed)

/-! ### The fields of a channel record -/

/-- Channel, key, modes and op of a stored channel value. The channel is the first field and
the op the last; what sits between is the key, with the modes behind a bar of their own in the
four-field form. `none` without any bar. -/
def parseGlobalChannelValue (value : Str) : Option (Str × Str × Int × Str) :=
  match splitOnce '|' value with
  | none => none
  | some (chan, rest) =>
    -- without a second bar there is neither key nor modes
    match rsplitOnce '|' rest with
    | none => some (chan, [], 0, rest)
    | some (mid, op) =>
      let middle := trunc mid 128
      match rsplitOnce '|' middle with
      -- the modes stand behind the last bar of the middle
      | some (key, modes) => some (chan, key, atoi modes, op)
      | none => some (chan, middle, 0, op)

/-! ### The two store paths of a channel record -/

/-- The op argument: cut to 15 bytes, bars stripped on both sides, `"add"` by default. -/
def safeOp (op : Str) : Str :=
  let s := (((trunc op 16).dropWhile (· == '|')).reverse.dropWhile (· == '|')).reverse
  if s.isEmpty then "add".toList else s

/-- The stored value of a global key. The password slot of an old oper mask is always
stored empty. -/
def combinedValue (key : GlobalKey) (value extra op : Str) : Str :=
  let out := match key with
    | .c =>
      if !extra.isEmpty then value ++ '|' :: extra ++ '|' :: op else value ++ "||".toList ++ op
    | .m => value ++ '|' :: op
    | .o => value ++ "||".toList ++ op
    | _ => value
  trunc out 1024

/-- Entry `i`, which holds `e`, takes a new value and stamp. A channel removed takes its
settings, bans and bindings with it, at the same stamp. -/
def replaceOld (clk : Clock) (s : HubState) (i : Nat) (e : GlobalEntry) (value : Str) (ts : Int)
    (chan : Str) : HubState :=
  let s' := { s with
    globalEntries := s.globalEntries.set i { e with value := value, timestamp := ts } }
  if e.key = .c && !globalValueActive value then (chanCascadeDel clk s' chan ts false).1 else s'

/-- The first field to store over a held record: a channel already stored keeps its first
writer's spelling. -/
def updateChan (key : GlobalKey) (stored value : Str) : Str :=
  if key = .c then trunc (firstField stored) (maxChan + 8) else value

/-- Store a composed `c`, `m` or `o` record. -/
def updateGlobalEntry (clk : Clock) (s : HubState) (key : GlobalKey) (value extra op : Str)
    (ts : Int) : HubState × Bool :=
  if keyIsModes key then (s, false)
  else
    match globalFind s key value with
    | some i =>
      match s.globalEntries[i]? with
      | none => (s, false)
      | some e =>
        let chan := updateChan key e.value value
        let combined := combinedValue key chan extra (safeOp op)
        -- the op of the combined value says whether the record is live
        if lwwAccepts clk ts (globalValueActive combined) e.timestamp (globalValueActive e.value)
        then (replaceOld clk s i e combined ts chan, true)
        else (s, false)
    | none =>
      let combined := combinedValue key value extra (safeOp op)
      -- a record the hub does not know: not too far ahead, and no delete the purge forgot
      if tsAhead clk ts then (s, false)
      else if !globalValueActive combined && purgeFloorBlocks clk s ts then (s, false)
      else if globalRoom s key then
        (globalPush s { key := key, value := combined, timestamp := ts, lastUsed := 0 }, true)
      else (s, false)

/-- The value to store over a held channel record: its spelling of the channel, the rest as it
arrived. A value that would not fit is taken as it is. -/
def rawNorm (key : GlobalKey) (stored value : Str) : Str :=
  if key = .c then
    let tail := (cut '|' 0 value).2
    -- the bar comes with the tail
    if !tail.isEmpty && decide (utf8Len (firstField stored) + utf8Len tail < 1024) then
      firstField stored ++ tail
    else value
  else value

/-- Store a global entry as it arrived over the wire, already combined. -/
def storeGlobalEntryRaw (clk : Clock) (s : HubState) (key : GlobalKey) (value : Str) (ts : Int) :
    HubState × Bool :=
  if keyIsModes key then putRecord clk s key value ts
  else
    match globalFind s key value with
    | some i =>
      match s.globalEntries[i]? with
      | none => (s, false)
      | some e =>
        let norm := rawNorm key e.value value
        if lwwAccepts clk ts (globalValueActive norm) e.timestamp (globalValueActive e.value) then
          let norm := trunc norm 1024
          (replaceOld clk s i e norm ts (trunc (firstField norm) maxChan), true)
        else (s, false)
    | none =>
      if tsAhead clk ts then (s, false)
      else if !globalValueActive value && purgeFloorBlocks clk s ts then (s, false)
      else if globalRoom s key then
        (globalPush s { key := key, value := trunc value 1024, timestamp := ts, lastUsed := 0 },
          true)
      else (s, false)

end IrcHub.Hub
