import IrcHub.Hub.Modes
import IrcHub.Hub.Sync

/-!
# `IrcHub.Hub.Console`: what an admin edits

The commands of the admin console that change replicated records (`console`, `admin.rs`), from the
payload as it arrives to the records written and the lines sent to the peers.

- users: `addUserRecord`, `delUserRecord`, `addUsermask`, `delUsermask`, `setUserkey`,
  `userAccess`
- channels: `addChannel`, `delChannel`
- bots: `createBotCmd`, `deleteBot`
- the network: `setOptFlags`, `setPurgeDays`, `purgeTombstones`

A payload is cut at its bars (`wireField`, `wireTail`) or scanned with a width for each field
(`scanOk`, `scanWord`), and what is too long is refused or cut as the command has it. Some
commands read the same field twice with different widths.

Each write is stamped past what is stored, so it wins on the hub it was made on, and its line goes
to the peers as the record stands afterwards. A command that makes several writes stamps each of
them by itself.

What is drawn at random (the uuid of a user, the id of a purge) comes as bytes with the command.
Channel settings, network defaults and bans are the commands of `IrcHub.Hub.Modes`. The gate in
front of all of them (the flags of the admin, a freeze) can only refuse a command and is not
modelled, and neither are the replies, which are those of `IrcHub.Hub.Replies`.
-/

set_option autoImplicit false

namespace IrcHub.Hub

open Str
open String (utf8Len)

/-! ### Fields of a payload -/

/-- The text after the first `idx` bars. -/
def afterBars : Nat → Str → Option Str
  | 0, s => some s
  | idx + 1, s => (splitOnce '|' s).bind fun p => afterBars idx p.2

/-- A text up to its first line end. -/
def untilLineEnd (s : Str) : Str := s.takeWhile fun c => c != '\r' && c != '\n'

/-- Field `idx` of a payload, `none` when it is missing or has `cap` bytes or more. The last field
ends at a line end. -/
def wireField (s : Str) (idx cap : Nat) : Option Str :=
  match afterBars idx s with
  | none => none
  | some rest =>
    let f := match splitOnce '|' rest with
      | some (f, _) => f
      | none => untilLineEnd rest
    if utf8Len f < cap then some f else none

/-- Field `idx` and everything after it up to a line end, cut to the buffer. -/
def wireTail (s : Str) (idx cap : Nat) : Option Str :=
  (afterBars idx s).map fun rest => trunc (untilLineEnd rest) cap

/-- A scanned field of one to `w` bytes. -/
def scanOk (f : Str) (w : Nat) : Bool := !f.isEmpty && decide (utf8Len f ≤ w)

/-- White space of Unicode. -/
def isUnicodeSpace (c : Char) : Bool :=
  let n := c.toNat
  (decide (0x09 ≤ n) && decide (n ≤ 0x0d)) || (decide (0x2000 ≤ n) && decide (n ≤ 0x200a))
    || [0x20, 0x85, 0xa0, 0x1680, 0x2028, 0x2029, 0x202f, 0x205f, 0x3000].contains n

/-- The first word of a field, at most `w` bytes of it. -/
def scanWord (f : Str) (w : Nat) : Option Str :=
  let t := (f.dropWhile isUnicodeSpace).takeWhile fun c => !isUnicodeSpace c
  -- a field of spaces only is no word
  if t.isEmpty then none else some (trunc t (w + 1))

/-- The two hexadecimal digits of a byte. -/
def hexByte (b : UInt8) : Str := [Nat.digitChar (b.toNat / 16), Nat.digitChar (b.toNat % 16)]

/-- The uuid made of 16 random bytes. -/
def genUuidV4 (r : Fin 16 → UInt8) : Str :=
  let byte (i : Fin 16) : UInt8 :=
    -- the version and the variant of a random uuid
    if i = 6 then (r i &&& 0x0f) ||| 0x40 else if i = 8 then (r i &&& 0x3f) ||| 0x80 else r i
  let h (is : List (Fin 16)) : Str := is.flatMap fun i => hexByte (byte i)
  h [0, 1, 2, 3] ++ '-' :: h [4, 5] ++ '-' :: h [6, 7] ++ '-' :: h [8, 9]
    ++ '-' :: h [10, 11, 12, 13, 14, 15]

/-! ### Users -/

/-- Position of the live user of a name. -/
def userByName (s : HubState) (name : Str) : Option Nat :=
  s.userRecords.findIdx? fun u => u.isActive && eqIc u.name name

/-- The user, and no other live admin, holds `a`. -/
def lastFullAdmin (s : HubState) (uuid : Str) : Bool :=
  (userFlags s uuid).contains 'a'
    && !s.userRecords.any fun u =>
      u.isActive && u.typ == 'a' && u.uuid != uuid && (userFlags s u.uuid).contains 'a'

/-- What a `user add` asks for. -/
structure UserAdd where
  name : Str
  pubKey : Str
  mask : Str
  access : Str
  deriving Repr, DecidableEq

/-- The fields `name|pubkey|mask|access` of a payload. A mask past its buffer leaves no access
field. -/
def userAddFields (payload : Str) : Option UserAdd :=
  match splitFields payload 4 with
  | name :: pubKey :: mask :: rest =>
    -- the source scans the access field behind the mask, and a cut mask leaves nothing there
    let acc := if utf8Len mask ≥ maxMaskLen then [] else trunc (rest.head?.getD []) 512
    if !scanOk name 63 || !scanOk pubKey (combinedKeyB64 + 1) || mask.isEmpty
      || acc.isEmpty then none
    else some { name := name, pubKey := pubKey, mask := trunc mask maxMaskLen, access := acc }
  | _ => none

/-- The channels of an oper as typed, each once, at most 16 of them. -/
-- typed twice, also in another case, counts once
def userAddChans (acc : Str) : Option (List Str) :=
  -- one bad name makes the whole list invalid
  ((acc.splitOn ',').filter fun t => !t.isEmpty).foldlM (fun (chans : List Str) t =>
    if chans.any (eqIc · t) then some chans
    else if !uchanNameOk t || chans.length ≥ 16 then none
    else some (chans ++ [t])) []

/-- The flags of the admin or the channels of the oper a `user add` asks for, `none` when they
cannot be given. -/
def userAddAccess (s : HubState) (typ : Char) (acc : Str) : Option (Str × List Str) :=
  if typ = 'a' then
    match uflagsEdit [] acc with
    -- an edit from nothing: letters with a minus leave an empty set, which is refused
    | some flags => if flags.isEmpty then none else some (flags, [])
    | none => none
  else
    match userAddChans acc with
    | none => none
    | some chans =>
      let star := chans.contains ['*']
      -- `"*"` stands alone; any other channel has to be one the hub joins
      if chans.isEmpty || (star && chans.length > 1)
          || chans.any (fun c => c != ['*'] && (chanLive s c).isNone) then none
      else some ([], chans)

/-- Whether a `user add` may be carried out: a usable name, key and mask, neither name nor key
taken, and room in every table. -/
def userAddOk (s : HubState) (typ : Char) (u : UserAdd) (chans : List Str) : Bool :=
  -- the name has to be one word, since commands name users by a word
  !u.name.contains ' ' && (pubkeyB64Decode u.pubKey).isSome
    && u.mask.contains '!' && u.mask.contains '@'
    && !s.userRecords.any (fun o =>
      o.isActive && (eqIc o.name u.name || (o.hasPubkey && o.pubkeyB64 == u.pubKey)))
    && decide (s.userRecords.length < maxHubUserRecords)
    && decide (s.maskRecords.length < maxHubUserMasks)
    -- room for everything before the first write, so a refused add leaves nothing behind
    && (if typ = 'a' then decide (s.uflagRecords.length < maxHubUserFlags)
      else decide (s.uchanRecords.length + chans.length + 1 ≤ maxHubChanBinds))

/-- The rights of a new user, at its own stamp. A channel-bound oper also gets its `"*"`
delete. -/
def userAddRights (clk : Clock) (s : HubState) (typ : Char) (uuid flags : Str)
    (chans : List Str) : HubState :=
  if typ = 'a' then (uflagPut clk s uuid flags clk.now).1
  else
    let s := chans.foldl (fun s c => (uchanPut clk s uuid c true clk.now).1) s
    -- only an oper bound to `"*"` needs no tombstone of it
    if chans.head? = some ['*'] then s else (uchanPut clk s uuid ['*'] false clk.now).1

/-- `user add`. The uuid is drawn by the hub. -/
def addUserRecord (clk : Clock) (s : HubState) (payload : Str) (typ : Char) (uuid : Str) :
    HubState :=
  match userAddFields payload with
  | none => s
  | some u =>
    match userAddAccess s typ u.access with
    | none => s
    | some (flags, chans) =>
      if !userAddOk s typ u chans then s
      else
        let user : UserRecord :=
          -- written without a check against the stored records: the uuid is new
          { uuid := uuid, name := u.name, pubkeyB64 := u.pubKey, hasPubkey := true, typ := typ,
            isActive := true, lastSeen := 0, timestamp := clk.now }
        let mask : MaskRecord :=
          { uuid := uuid, mask := u.mask, isActive := true, lastUsed := 0, timestamp := clk.now }
        let s := userAddRights clk
          { s with userRecords := s.userRecords ++ [user],
                   maskRecords := s.maskRecords ++ [mask] }
          typ uuid flags chans
        broadcastSyncToPeers s
          (formatUserRecord user ++ formatMaskRecord mask ++ accessAppend s (· == uuid))

/-- A mask deleted with its user. -/
def dropMask (clk : Clock) (uuid : Str) (m : MaskRecord) : MaskRecord :=
  if m.uuid == uuid && m.isActive then
    { m with isActive := false, timestamp := lwwNextTs clk m.timestamp }
  else m

/-- `user del`, with the masks of the user. The last full admin stays. -/
def delUserRecord (clk : Clock) (s : HubState) (payload : Str) : HubState :=
  match (userByName s payload).bind fun ui => (s.userRecords[ui]?).map (ui, ·) with
  | none => s
  | some (ui, u) =>
    -- the last full admin is refused before anything is written
    if payload.isEmpty || (u.typ = 'a' && lastFullAdmin s u.uuid) then s
    else
      let u' := { u with isActive := false, timestamp := lwwNextTs clk u.timestamp }
      let uline := formatUserRecord u'
      let masks := (s.maskRecords.filter fun m => m.uuid == u.uuid && m.isActive).map
        (dropMask clk u.uuid)
      broadcastSyncToPeers
        { s with
          userRecords := s.userRecords.set ui u'
          maskRecords := s.maskRecords.map (dropMask clk u.uuid) }
        -- a user line too wide for its buffer is not sent
        ((if utf8Len uline < userLineMax then uline else []) ++ masks.flatMap formatMaskRecord)

/-- The fields `name|word` of a payload. -/
def nameAndWord (payload : Str) (w : Nat) : Option (Str × Str) :=
  match splitFields payload 2 with
  | [name, f] => if scanOk name 63 then (scanWord f w).map (name, ·) else none
  | _ => none

/-- Write mask record `i` and send its line. -/
def maskWrite (s : HubState) (i : Nat) (m : MaskRecord) : HubState :=
  broadcastSyncToPeers { s with maskRecords := s.maskRecords.set i m } (formatMaskRecord m)

/-- `user mask add`. A deleted mask is revived past its stamp. -/
def addUsermask (clk : Clock) (s : HubState) (payload : Str) : HubState :=
  match nameAndWord payload (maxMaskLen - 1) with
  | none => s
  | some (name, mask) =>
    -- a mask without both marks would match no hostmask
    if !mask.contains '!' || !mask.contains '@' then s
    else
      match (userByName s name).bind (s.userRecords[·]?) with
      | none => s
      | some u =>
        let same := s.maskRecords.zipIdx.filter fun p => p.1.uuid == u.uuid && eqIc p.1.mask mask
        -- there already: the command changes nothing and tells the peers nothing
        if same.any (·.1.isActive) then s
        else
          -- the last tombstone of the mask is the one that comes back
          match same.getLast? with
          | some (m, mi) =>
            maskWrite s mi { m with isActive := true, timestamp := lwwNextTs clk m.timestamp }
          | none =>
            if s.maskRecords.length ≥ maxHubUserMasks then s
            else
              let m : MaskRecord :=
                { uuid := u.uuid, mask := mask, isActive := true, lastUsed := 0,
                  timestamp := clk.now }
              broadcastSyncToPeers { s with maskRecords := s.maskRecords ++ [m] }
                (formatMaskRecord m)

/-- `user mask del`. -/
def delUsermask (clk : Clock) (s : HubState) (payload : Str) : HubState :=
  match nameAndWord payload (maxMaskLen - 1) with
  | none => s
  | some (name, mask) =>
    match (userByName s name).bind (s.userRecords[·]?) with
    | none => s
    | some u =>
      match s.maskRecords.findIdx? fun m => m.isActive && m.uuid == u.uuid
        && eqIc m.mask mask with
      | none => s
      | some mi =>
        match s.maskRecords[mi]? with
        | none => s
        | some m =>
          maskWrite s mi { m with isActive := false, timestamp := lwwNextTs clk m.timestamp }

/-- `user set key`. No two live users share a key. -/
def setUserkey (clk : Clock) (s : HubState) (payload : Str) : HubState :=
  match nameAndWord payload (combinedKeyB64 + 1) with
  | none => s
  | some (name, pubKey) =>
    -- a text that is no key is refused before the user is looked up
    if (pubkeyB64Decode pubKey).isNone then s
    else
      match (userByName s name).bind fun ti => (s.userRecords[ti]?).map (ti, ·) with
      | none => s
      | some (ti, u) =>
        -- the key of another live user; one's own key may be set again
        if s.userRecords.zipIdx.any fun p =>
            p.2 != ti && p.1.isActive && p.1.hasPubkey && p.1.pubkeyB64 == pubKey then s
        else
          let u' := { u with
            pubkeyB64 := pubKey, hasPubkey := true, timestamp := lwwNextTs clk u.timestamp }
          broadcastSyncToPeers { s with userRecords := s.userRecords.set ti u' }
            (formatUserRecord u')

/-- `user set flags`: the admin's flags as the edit leaves them. -/
def userSetFlags (clk : Clock) (s : HubState) (t : UserRecord) (spec : Str) : HubState :=
  if t.typ ≠ 'a' then s
  else
    match uflagsEdit (userFlags s t.uuid) spec with
    | none => s
    | some flags =>
      -- an edit that leaves no flag, takes the last `a` or changes nothing is refused
      if flags.isEmpty || (!flags.contains 'a' && lastFullAdmin s t.uuid)
          || userFlags s t.uuid == flags then s
      else
        let p := uflagPut clk s t.uuid flags (accessNextTs clk s t.uuid)
        -- the store refused it, which leaves the state as it was
        if !p.2 then p.1
        else
          let lines := accessAppend p.1 (· == t.uuid)
          if lines.isEmpty then p.1 else broadcastSyncToPeers p.1 lines

/-- Whether a binding command has something to write: a live binding is not added again, unless
`"*"` still covers it, and only a live one is deleted. -/
def userChanWrites (s : HubState) (t : UserRecord) (add : Bool) (chan : Str) : Bool :=
  let live := ((uchanFind s t.uuid chan).bind (s.uchanRecords[·]?)).any (·.isActive)
  let bound := s.uchanRecords.any fun r => r.isActive && r.uuid == t.uuid
  let global := s.uchanRecords.any fun r => r.isActive && r.uuid == t.uuid && r.chan == ['*']
  let star := chan == ['*']
  -- a channel binding is also written where `"*"` is live, since it replaces it
  if add then (star || (chanLive s chan).isSome) && !(live && (star || !global))
  else if star then bound
  else live

/-- `user chan add` and `user chan del`. -/
def userSetChan (clk : Clock) (s : HubState) (t : UserRecord) (add : Bool) (chan : Str) :
    HubState :=
  -- only opers are bound to channels
  if t.typ ≠ 'o' || !uchanNameOk chan || !userChanWrites s t add chan then s
  else
    let p := chanChange clk s t.uuid add chan
    match p.2 with
    -- a write was refused: what went before it stays, and no line goes out
    | none => p.1
    | some lines => if lines.isEmpty then p.1 else broadcastSyncToPeers p.1 lines

/-- `flags|name|spec`, `chan|add|name|chan` or `chan|del|name|chan`. -/
def userAccess (clk : Clock) (s : HubState) (payload : Str) : HubState :=
  let nf := payload.count '|' + 1
  -- a fourth field that is missing reads as empty, one that is too long refuses the line
  let f₃ := if nf > 3 then wireField payload 3 maxChan else some []
  match wireField payload 0 8, wireField payload 1 64, wireField payload 2 64, f₃ with
  | some kind, some f₁, some f₂, some f₃ =>
    let user (name : Str) := (userByName s name).bind (s.userRecords[·]?)
    if kind == "flags".toList && nf == 3 then
      match user f₁ with
      | some t => userSetFlags clk s t f₂
      | none => s
    else if kind == "chan".toList && nf == 4 && (f₁ == "add".toList || f₁ == "del".toList) then
      match user f₂ with
      | some t => userSetChan clk s t (f₁ == "add".toList) f₃
      | none => s
    else s
  | _, _, _, _ => s

/-! ### Channels -/

/-- A channel name the bots can join. -/
def chanNameValid (s : Str) : Bool :=
  decide (2 ≤ utf8Len s) && decide (utf8Len s < maxChan)
    && (s.head? == some '#' || s.head? == some '&')
    && s.all fun c => decide (c.toNat > 0x20) && c != ',' && c.toNat != 0x7f

/-- The modes the bots last saw of a channel, 0 for none. -/
def globalChannelModes (s : HubState) (chan : Str) : Int :=
  (((learnedIndex s chan).bind (s.chanLearned[·]?)).map (·.modes)).getD 0

/-- Write the key of a channel past its stored stamp, with the modes the bots saw. -/
def chanStore (clk : Clock) (s : HubState) (chan key : Str) : HubState :=
  -- past the stored stamp, so the line wins on every peer that holds the same record
  let t := lwwNextTs clk (globalTs s .c chan)
  let extra := key ++ '|' :: ofInt (globalChannelModes s chan)
  broadcastSyncToPeers (updateGlobalEntry clk s .c chan extra "add".toList t).1
    ("c|".toList ++ chan ++ '|' :: extra ++ "|add|".toList ++ ofInt t ++ ['\n'])

/-- `channel add`. -/
def addChannel (clk : Clock) (s : HubState) (payload : Str) : HubState :=
  let chan := (wireField payload 0 128).getD []
  let key := (wireTail payload 1 64).getD []
  -- the key is a field of its line: no space, no comma
  if payload.isEmpty || !chanNameValid chan
      || key.any (fun c => decide (c.toNat ≤ 0x20) || c == ',') then s
  else chanStore clk s chan key

/-- A stamp past every record of a channel. -/
def chanDelStamp (clk : Clock) (s : HubState) (chan : Str) : Int :=
  let stamps := (s.globalEntries.filter fun e =>
    -- the settings and the bans carry stamps of their own, the delete has to pass them all
    (e.key = .c || e.key = .C || e.key = .B) && entryChanEq e chan).map (·.timestamp)
  lwwNextTs clk (match stamps with
    | [] => 0
    | t :: ts => ts.foldl max t)

/-- `channel del`: the channel as typed goes with its settings, bans and bindings. -/
def delChannel (clk : Clock) (s : HubState) (payload : Str) : HubState :=
  if payload.isEmpty then s
  else
    let t := chanDelStamp clk s payload
    -- the settings, the bans and the bindings first, then the channel
    let s := (chanCascadeDel clk s payload t true).1
    broadcastSyncToPeers (updateGlobalEntry clk s .c payload [] "del".toList t).1
      ("c|".toList ++ payload ++ "||del|".toList ++ ofInt t ++ ['\n'])

/-! ### Bots -/

/-- `bot add`, from `nick|uuid|key`. -/
def createBotCmd (clk : Clock) (s : HubState) (payload : Str) : Option HubState :=
  match splitFields payload 3 with
  | [nick, uuid, f] =>
    match scanWord f 255 with
    | some key =>
      -- a scanned field that does not fit leaves the state as it was
      if scanOk nick 63 && scanOk uuid 63 then createBot clk s nick uuid key else some s
    | none => some s
  | _ => some s

/-- `bot del`: a tombstone every peer stores, and the entry of the revoke list it made. -/
def deleteBot (clk : Clock) (s : HubState) (uuid : Str) : Option HubState :=
  match (botFind s uuid).bind (s.bots[·]?) with
  | none => some s
  | some b =>
    -- deleted before
    if uuid.isEmpty || !b.isActive then some s
    else
      let ts := lwwNextTs clk (((b.entry .d).map (·.timestamp)).getD 0)
      match updateEntry clk s uuid BotKey.d.name ['1'] [] [] ts with
      | none => none
      | some p =>
        let live := ((botFind p.1 uuid).bind (p.1.bots[·]?)).any (·.isActive)
        -- refused by the store, or still live afterwards: no line is sent
        if !p.2 || live then some p.1
        else
          -- the entry of the revoke list that the delete made travels with it
          let rv := match (revokeFind p.1 uuid).bind (p.1.revoked[·]?) with
            | some r => revokeFormat r
            | none => []
          some (broadcastSyncToPeers p.1
            ("b|".toList ++ uuid ++ "|d|1|".toList ++ ofInt ts ++ ['\n'] ++ rv))

/-! ### The network -/

/-- New opt flags, past the stamp of the old ones. -/
def optWrite (clk : Clock) (s : HubState) (flags : Str) : HubState :=
  let s := { s with optFlags := flags, optFlagsTs := lwwNextTs clk s.optFlagsTs }
  broadcastSyncToPeers s (optFormat s)

/-- `option set`: the letters and digits of the payload, each once. -/
def setOptFlags (clk : Clock) (s : HubState) (payload : Str) : HubState :=
  optWrite clk s (((payload.filter Char.isAlphanum).take maxOptFlags).foldl (fun (acc : Str) c =>
    if !acc.contains c && decide (acc.length < maxOptFlags) then acc ++ [c] else acc) [])

/-- An upgrade run sets or clears a flag. -/
def optFlagSet (clk : Clock) (s : HubState) (flag : Char) (on : Bool) : HubState :=
  -- set as asked already: no new stamp
  if s.optFlags.contains flag = on then s
  else
    let next := s.optFlags.filter (· != flag)
    -- a full set stays without the flag
    optWrite clk s (if on && utf8Len next < maxOptFlags then next ++ [flag] else next)

/-- `hub set autopurge`. -/
def setPurgeDays (clk : Clock) (s : HubState) (payload : Str) : HubState :=
  match parseUint payload autopurgeMax with
  | none => s
  | some days =>
    let p := gsettingSet clk s autopurgeName days
    broadcastSyncToPeers p.1 (gsettingFormat p.1)

/-- A purge here, then on the peers under an id drawn at random. -/
def purgeAndBroadcast (clk : Clock) (s : HubState) (cutoff : Int) (id : Str) : HubState :=
  broadcastSyncToPeers (recordRecentPurge clk (executePurge clk s cutoff) cutoff id)
    ("PURGE|".toList ++ ofInt cutoff ++ '|' :: id ++ ['\n'])

/-- `hub purge`: everything, or what is older than a number of days. -/
def purgeTombstones (clk : Clock) (s : HubState) (payload id : Str) : HubState :=
  -- the cutoff 0 takes every tombstone, whatever its stamp
  if payload == "immediate".toList then purgeAndBroadcast clk s 0 id
  else
    match parseUint payload autopurgeMax with
    | none => s
    -- zero days is not a purge of everything
    | some days => if days = 0 then s else purgeAndBroadcast clk s (clk.now - days * 86400) id

end IrcHub.Hub
