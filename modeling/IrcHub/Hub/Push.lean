import IrcHub.Hub.Modes
import IrcHub.Hub.Sync

/-!
# `IrcHub.Hub.Push`: what a bot writes

What a bot writes, from `client.rs`. A bot offers its records in a config push, many lines, or as
a delta, one value. Opt `h` makes the hub the only writer of the records admins manage, and a
freeze leaves a bot its nick and its hostmask only.

- `parsePushChannel`: the four shapes of a channel line, told apart by scanning
- `pushChannel`, `pushBan`, `pushMask`, `pushUser`, `pushOwn`, `pushHublist`, `pushAccess`: one
  function for each kind of line
- `pushLine`: one line, by its tag. `pushLines`: the lines of a push, cut to the size of a frame
- `pushFinish`: what follows the lines: rights of new users, the admin floor, the stamp of the
  push
- `processBotConfigPush`, `processBotDelta`: the two frames

Each line ends in a store function, so what a push can do is what these accept. What it changed
goes to the peers in batches (`PushAcc.sync`): a line that would not fit closes the batch first,
and a line too long for the peers is stored and not forwarded.

`id` is the uuid the bot authenticated with. Lines about the bot itself do not say which bot they
are about; lines about users and channels name their record.
-/

set_option autoImplicit false

namespace IrcHub.Hub

open Str
open String (utf8Len)

/-- Only the hub may change what admins manage. -/
def hubOnlyMutations (s : HubState) : Bool := s.optFlags.contains 'h'

/-! ### Lines of a push -/

/-- What a push carries along: the state, the updates made and the batch for the peers. -/
structure PushAcc where
  state : HubState
  updates : Nat := 0
  batch : Str := []

/-- One update, with its line for the peers. A batch it would not fit in goes out first. -/
def PushAcc.sync (a : PushAcc) (s : HubState) (line : Str) : PushAcc :=
  if !a.batch.isEmpty && utf8Len a.batch + utf8Len line ≥ maxBuffer then
    { state := broadcastSyncToPeers s a.batch, updates := a.updates + 1, batch := line }
  else { state := s, updates := a.updates + 1, batch := a.batch ++ line }

/-- The result of one write of a push. -/
def PushAcc.wrote (a : PushAcc) (p : HubState × Bool) (line : Str) : PushAcc :=
  if p.2 then a.sync p.1 line else { a with state := p.1 }

/-- The text or number of a conversion if it was made, else what is there. -/
def convText (cs : List Conv) (i : Nat) (old : Str) : Str := (cs[i]?.map Conv.text).getD old

/-- The number of a conversion if it was made, else what is there. -/
def convNum (cs : List Conv) (i : Nat) (old : Int) : Int := (cs[i]?.map Conv.num).getD old

/-- The fields of a pushed channel: channel, key, modes, op, stamp. -/
structure PushChannel where
  chan : Str := []
  key : Str := []
  modes : Int := 0
  op : Str := []
  ts : Int := 0
  deriving Repr, DecidableEq

/-- `chan|key|modes|op|ts`, or without a key, or without modes, or without both: the first shape
that converts. A later attempt keeps what an earlier one read and it did not. -/
def parsePushChannel (data : Str) : Option PushChannel :=
  -- all five fields
  let c₁ := sscanf data [.set 64, .lit '|', .set 30, .lit '|', .int, .lit '|', .set 7,
    .lit '|', .int]
  let r₁ : PushChannel :=
    { chan := convText c₁ 0 [], key := convText c₁ 1 [], modes := toI32 (convNum c₁ 2 0),
      op := convText c₁ 3 [], ts := convNum c₁ 4 0 }
  if c₁.length ≥ 5 then some r₁
  else
    -- without a key
    let c₂ := sscanf data [.set 64, .lit '|', .lit '|', .int, .lit '|', .set 7, .lit '|', .int]
    let r₂ : PushChannel :=
      { chan := convText c₂ 0 r₁.chan, key := r₁.key, modes := toI32 (convNum c₂ 1 0),
        op := convText c₂ 2 r₁.op, ts := convNum c₂ 3 r₁.ts }
    if c₂.length ≥ 4 then some { r₂ with key := [] }
    else
      -- without modes
      let c₃ := sscanf data [.set 64, .lit '|', .set 30, .lit '|', .set 7, .lit '|', .int]
      let r₃ : PushChannel :=
        { chan := convText c₃ 0 r₂.chan, key := convText c₃ 1 r₂.key, modes := 0,
          op := convText c₃ 2 r₂.op, ts := convNum c₃ 3 r₂.ts }
      if c₃.length ≥ 3 then some r₃
      else
        -- without both
        let c₄ := sscanf data [.set 64, .lit '|', .lit '|', .set 7, .lit '|', .int]
        if c₄.length ≥ 3 then
          some { chan := convText c₄ 0 r₃.chan, key := [], modes := 0,
                 op := convText c₄ 1 r₃.op, ts := convNum c₄ 2 r₃.ts }
        else none

/-- A pushed channel. Under opt `h` a bot may only report on a channel that is managed. -/
def pushChannel (clk : Clock) (id data : Str) (a : PushAcc) : PushAcc :=
  match parsePushChannel data with
  | none => a
  | some r =>
    -- under opt `h` a bot reports no delete, and no channel that is not managed
    if hubOnlyMutations a.state && (r.op != "add".toList || (chanLive a.state r.chan).isNone)
      then a
    else
      let extra := trunc (r.key ++ '|' :: ofInt r.modes) 80
      -- the line for the peers is written with the fields as they were sent
      a.wrote (updateGlobalEntry clk a.state .c r.chan extra r.op r.ts)
        ("b|".toList ++ id ++ "|c|".toList ++ r.chan ++ '|' :: r.key ++ '|' :: ofInt r.modes
          ++ '|' :: r.op ++ '|' :: ofInt r.ts ++ ['\n'])

/-- A pushed ban. -/
def pushBan (clk : Clock) (id data : Str) (a : PushAcc) : PushAcc :=
  match rsplitOnce '|' data with
  | none => a
  | some (value, tsText) =>
    if value.isEmpty || utf8Len value ≥ 1024 then a
    else
      a.wrote (banBotWrite clk a.state id value (atoll tsText))
        ("B|".toList ++ value ++ '|' :: ofInt (atoll tsText) ++ ['\n'])

/-- A pushed usermask. The user need not be known. -/
def pushMask (clk : Clock) (data : Str) (a : PushAcc) : PushAcc :=
  match splitFields data 5 with
  | [uuid, _, act, _, _] =>
    -- only the newer format, which starts with a uuid
    if !hasUuidDashes uuid then a
    else
      match parseMaskRecord data with
      | none => a
      | some inc =>
        match maskSlot clk a.state inc with
        | none => a
        | some (s, mi) =>
          match s.maskRecords[mi]? with
          | none => { a with state := s }
          | some cur =>
            -- the mask loses: only the time it was used may go up
            if !lwwAccepts clk inc.timestamp inc.isActive cur.timestamp cur.isActive then
              { a with state := raise clk s (.mask mi) inc.lastUsed }
            else
              a.sync
                { s with
                  maskRecords := s.maskRecords.set mi
                    { cur with
                      isActive := inc.isActive
                      lastUsed := max cur.lastUsed inc.lastUsed
                      timestamp := inc.timestamp } }
                ("m|".toList ++ inc.uuid ++ '|' :: inc.mask ++ '|' :: trunc act 8
                  ++ '|' :: ofInt inc.lastUsed ++ '|' :: ofInt inc.timestamp ++ ['\n'])
  | _ => a

/-- The record a pushed user is compared with: by uuid, or a blank one. -/
def pushUserSlot (clk : Clock) (s : HubState) (inc : UserRecord) : Option (HubState × Nat) :=
  match userFind s inc.uuid with
  | some i => some (s, i)
  | none => userNew clk s inc

/-- A pushed user. A line too long for the peers is not forwarded. -/
def pushUser (clk : Clock) (typ : Char) (data : Str) (a : PushAcc) : PushAcc :=
  match parseUserRecord data typ with
  | none => a
  | some inc =>
    match pushUserSlot clk a.state inc with
    | none => a
    | some (s, ui) =>
      match s.userRecords[ui]? with
      | none => { a with state := s }
      | some cur =>
        -- the line loses: only the time the user was seen may go up
        if !lwwAccepts clk inc.timestamp inc.isActive cur.timestamp cur.isActive then
          { a with state := raise clk s (.user ui) inc.lastSeen }
        else
          let u := userWrite inc cur
          let s := { s with userRecords := s.userRecords.set ui u }
          let line := formatUserRecord u
          if utf8Len line < userLineMax then a.sync s line
          else { a with state := s, updates := a.updates + 1 }

/-- One value of the bot itself, already parsed. -/
def pushOwn (clk : Clock) (id key value : Str) (ts : Int) (a : PushAcc) : Option PushAcc :=
  match updateEntry clk a.state id key value [] [] ts with
  | none => none
  | some p =>
    some (a.wrote p
      ("b|".toList ++ id ++ '|' :: key ++ '|' :: value ++ '|' :: ofInt ts ++ ['\n']))

/-- The hubs a bot dials. Only the bot knows them, and the hub stamps the list when it changed. -/
def pushHublist (clk : Clock) (id v : Str) (a : PushAcc) : Option PushAcc :=
  match (botFind a.state id).bind (a.state.bots[·]?) with
  | none => some a
  | some b =>
    -- a list that did not change is not stamped again
    if !hublistValid v || (b.entry .hl).any (fun e => e.value == v) then some a
    else
      pushOwn clk id BotKey.hl.name v
        (lwwNextTs clk (((b.entry .hl).map (·.timestamp)).getD 0)) a

/-- A nick or hostmask line `value|ts`, the value at most `n` bytes. -/
def pushIdentity (clk : Clock) (id key data : Str) (n : Nat) (a : PushAcc) : Option PushAcc :=
  match sscanf data [.set n, .lit '|', .int] with
  | [value, ts] => pushOwn clk id key value.text ts.num a
  | _ => some a

/-- A line of one letter and a bar. -/
def pushTyped (clk : Clock) (id : Str) (typ : Char) (data : Str) (a : PushAcc) : Option PushAcc :=
  -- users and masks are the hub's under opt `h`
  if hubOnlyMutations a.state && (typ == 'a' || typ == 'o' || typ == 'm') then some a
  else
    match typ with
    | 'c' => some (pushChannel clk id data a)
    | 'K' => some (a.wrote (learnedIngest clk a.state data) ("K|".toList ++ data ++ ['\n']))
    | 'B' => some (pushBan clk id data a)
    | 'm' => some (pushMask clk data a)
    | 'o' => some (pushUser clk 'o' data a)
    | 'a' => some (pushUser clk 'a' data a)
    | 'h' => pushIdentity clk id BotKey.h.name data 255 a
    | 'n' => pushIdentity clk id BotKey.n.name data 31 a
    | _ => some a

/-- Flags or bindings of a user, unless opt `h` is set. -/
def pushAccess (clk : Clock) (kind : Char) (body line : Str) (a : PushAcc) : PushAcc :=
  if hubOnlyMutations a.state then a
  else
    let p := accessIngest clk a.state kind body true
    a.wrote (p.1, p.2 = some true) (line ++ ['\n'])

/-- A line that is looked at. -/
def pushLineTaken (frozen : Bool) (line : Str) : Bool :=
  decide (utf8Len line ≥ 2) && line.head? != some '#'
    && (!frozen || (afterTag "n|".toList line).isSome || (afterTag "h|".toList line).isSome)

/-- One line of a push. -/
def pushLine (clk : Clock) (frozen : Bool) (id : Str) (a : PushAcc) (line : Str) :
    Option PushAcc :=
  if !pushLineTaken frozen line then some a
  else
    -- the long tags are looked at before the letters
    match afterTag "uf|".toList line with
    | some body => some (pushAccess clk 'f' body line a)
    | none =>
      match afterTag "uc|".toList line with
      | some body => some (pushAccess clk 'c' body line a)
      | none =>
        match afterTag "hl|".toList line with
        | some v => pushHublist clk id v a
        | none =>
          match line with
          | typ :: '|' :: data => pushTyped clk id typ data a
          | _ => some a

/-! ### A push -/

/-- The protocol a push says it speaks, 0 when it is unreadable, -1 without one. -/
def pushProto (payload : Str) : Int :=
  match (payload.splitOn '\n').findSome? (afterTag "v|".toList) with
  | none => -1
  | some v => if atoll v > 0 && atoll v < 1000 then atoll v else 0

/-- After the lines of a push: default rights of new users, the admin floor, and the time the bot
was seen. -/
def pushFinish (clk : Clock) (id : Str) (a : PushAcc) : Option HubState :=
  let m := accessMigrate clk a.state
  -- nothing was stored and no rights were given: the bot is not marked as seen
  if a.updates = 0 && m.2 = 0 then some m.1
  else
    let r := adminFloorRestore clk m.1
    let s := match r.2 with
      | some lines => if lines.isEmpty then r.1 else broadcastSyncToPeers r.1 lines
      | none => r.1
    match updateEntry clk s id BotKey.seen.name [] [] [] clk.now with
    | none => none
    | some p => some (if a.batch.isEmpty then p.1 else broadcastSyncToPeers p.1 a.batch)

/-- The lines a push is read as. -/
def pushLines (payload : Str) : List Str := (trunc payload maxBuffer).splitOn '\n'

/-- Apply a config push. A bot of an old protocol is refused. -/
def processBotConfigPush (clk : Clock) (s : HubState) (id frame : Str) : Option HubState :=
  let payload := untilNul frame
  -- a push without a version line is of an old bot too, but it is taken
  if 0 ≤ pushProto payload ∧ pushProto payload < botProtoUserFlags then some s
  else
    match (pushLines payload).foldlM (pushLine clk (configFrozen s) id) { state := s } with
    | none => none
    | some a => pushFinish clk id a

/-! ### A delta -/

/-- The keys of the records admins manage. -/
def hubAuthoritative (key : Str) : Bool :=
  [GlobalKey.a, .o, .m, .c, .p].any fun k => [k.tag] == key

/-- Apply a delta `key|value|ts`. Without a stamp it is stamped now. -/
def processBotDelta (clk : Clock) (s : HubState) (id frame : Str) : Option HubState :=
  match sscanf (untilNul frame) [.set 31, .lit '|', .set 1023, .lit '|', .int] with
  | k :: v :: rest =>
    let key := k.text
    -- a stamp of zero is no stamp
    let ts := match rest with
      | t :: _ => if t.num = 0 then clk.now else t.num
      | [] => clk.now
    -- what admins manage is not a bot's to change under opt `h`
    if hubOnlyMutations s && hubAuthoritative key then some s
    -- a frozen config takes the identity of a bot and nothing else
    else if configFrozen s && key != BotKey.n.name && key != BotKey.h.name then some s
    else
      match updateEntry clk s id key v.text [] [] ts with
      | none => none
      | some p =>
        let line := "b|".toList ++ id ++ '|' :: key ++ '|' :: v.text ++ '|' :: ofInt ts ++ ['\n']
        some (if p.2 && utf8Len line < maxBuffer then broadcastSyncToPeers p.1 line else p.1)
  | _ => some s

end IrcHub.Hub
