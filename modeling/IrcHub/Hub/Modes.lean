import IrcHub.Hub.Bots
import IrcHub.Hub.Glob

/-!
# `IrcHub.Hub.Modes`: settings, modes and bans around the records

The functions of `modes.rs` that write `C`, `D` and `B` records: the console's (`chansetPut`,
`netsetPut`, `banAdd`, `banDel`) and the one for the bans a bot pushes (`banBotWrite`). Each
composes a value, stamps it past the record that is there and stores it through `putRecord`.

* `settingTable`, `settingCheck`, `settingsCheck`: the settings, and what may be set
* `modesCheck`: a mode string, with its limit and key
* `settingEffective`: the value in force for a channel: its own, else the network's, else the
  built-in one
* `banProtected`: whether a ban would hit a bot or a user. A mask is compared with the hostmask of
  each live bot and with the usermasks, which are patterns themselves
* `storeRecord`: the write that all of them share, with the line for the peers

A change to a ban that is there is a new value under the stored spelling of its mask. Lifting one
writes the tombstone that every hub writes.

`banBotWrite` takes the least: a bot bans in one managed channel, for a time the settings of the
channel bound, signs its bans with its own uuid, and may lift only those it signed.
-/

set_option autoImplicit false

namespace IrcHub.Hub

open Str
open String (utf8Len)

/-- What a command answers. -/
inductive ModesStatus
  | ok | frozen | badChan | notManaged | badModes | badSetting | tooLong | badMask | badReason
  | badExpiry | protected_ | full | notFound
  deriving Repr, DecidableEq

/-! ### The setting table -/

/-- The kinds of values. -/
inductive StKind
  | flag | num | flood | sendq
  deriving Repr, DecidableEq

/-- A setting: its name, kind, range, built-in value, and whether it is one of the network
only. -/
structure SettingDef where
  name : Str
  kind : StKind
  lo : Int
  hi : Int
  builtin : Str
  netOnly : Bool
  deriving Repr, DecidableEq

/-- A row of the table. -/
def sd (name : String) (kind : StKind) (lo hi : Int) (builtin : String) (netOnly : Bool) :
    SettingDef :=
  { name := name.toList, kind := kind, lo := lo, hi := hi, builtin := builtin.toList,
    netOnly := netOnly }

/-- Names, ranges and built-in values. -/
def settingTable : List SettingDef := [
  sd "enforcemodes" .flag 0 1 "0" false, sd "bitch" .flag 0 1 "0" false,
  sd "protectops" .flag 0 1 "1" false, sd "revenge" .flag 0 1 "0" false,
  sd "stopnethack" .flag 0 1 "0" false, sd "enforcebans" .flag 0 1 "0" false,
  sd "dynamicbans" .flag 0 1 "1" false, sd "dontkickops" .flag 0 1 "1" false,
  sd "cycle" .flag 0 1 "1" false, sd "dynamiclimit" .flag 0 1 "0" false,
  sd "bantime" .num 0 525600 "120" false, sd "bantype" .num 0 9 "2" false,
  sd "banidle" .num 1 10080 "60" false, sd "limitgap" .num 1 1000 "5" false,
  sd "limitdelay" .num 10 3600 "60" false, sd "flood chan" .flood 0 0 "15:60" false,
  sd "flood ctcp" .flood 0 0 "3:60" false, sd "flood join" .flood 0 0 "5:60" false,
  sd "flood nick" .flood 0 0 "5:60" false, sd "flood deop" .flood 0 0 "3:10" false,
  sd "flood kick" .flood 0 0 "3:10" false, sd "flood ban" .flood 0 0 "3:10" false,
  sd "bflood cmd" .flood 0 0 "10:30" true, sd "bflood msg" .flood 0 0 "5:60" true,
  sd "bflood ctcp" .flood 0 0 "3:60" true, sd "ignoretime" .num 1 1440 "10" true,
  sd "sendq" .sendq 0 0 "10:100" true]

/-- The row of a name. -/
def settingFind (name : Str) : Option SettingDef := settingTable.find? fun d => d.name == name

/-- One to nine decimal digits. -/
def parseNum (s : Str) : Option Int :=
  if s.isEmpty || utf8Len s > 9 || !s.all Char.isDigit then none
  else some (s.foldl (fun v c => v * 10 + (c.toNat - '0'.toNat : Int)) 0)

/-- Two numbers around a colon, each in its range. -/
def pairOk (value : Str) (lo₁ hi₁ lo₂ hi₂ : Int) : Bool :=
  match splitOnce ':' value with
  | none => false
  | some (a, b) =>
    decide (utf8Len a < 16)
      && match parseNum a, parseNum b with
        | some x, some y => decide (lo₁ ≤ x ∧ x ≤ hi₁ ∧ lo₂ ≤ y ∧ y ≤ hi₂)
        | _, _ => false

/-- A name with its value, against the table. -/
def settingCheck (name value : Str) (netDefault : Bool) : Bool :=
  match settingFind name with
  | none => false
  | some d =>
    (!d.netOnly || netDefault)
      && match d.kind with
        | .flag => value == ['0'] || value == ['1']
        | .num =>
          match parseNum value with
          | some v => decide (d.lo ≤ v ∧ v ≤ d.hi)
          | none => false
        | .flood => value == "off".toList || pairOk value 1 1000 1 3600
        | .sendq => pairOk value 1 100 0 10000

/-- The names and values of a settings string. A token without a name, or with a part of 48 bytes
or more, is a pair of empty texts. -/
def settingsPairs (settings : Str) : List (Str × Str) :=
  (settingsTokens settings).map fun tok =>
    match splitOnce '=' tok with
    | none => ([], [])
    | some (name, value) =>
      if !name.isEmpty && utf8Len name < 48 && utf8Len value < 48 then (name, value) else ([], [])

/-- A settings string: known names carry legal values, unknown ones are kept. -/
def settingsCheck (settings : Str) (netDefault : Bool) : ModesStatus :=
  if utf8Len settings > (if netDefault then dSettingsMax else cSettingsMax) then .tooLong
  else if (settingsPairs settings).all fun p =>
      !p.1.isEmpty && ((settingFind p.1).isNone || settingCheck p.1 p.2 netDefault) then .ok
  else .badSetting

/-- The value of a name in a settings string. -/
def settingsGet (settings name : Str) : Option Str :=
  ((settingsPairs settings).find? fun p => p.1 == name).map (·.2)

/-! ### Mode strings -/

/-- The letters of a mode string: the sign in force, and the letters seen with theirs. -/
def modesLetters : Option Bool → List (Char × Bool) → Str → Option (List (Char × Bool))
  | _, seen, [] => some seen
  | sign, seen, c :: rest =>
    -- a sign holds for the letters behind it
    if c = '+' then modesLetters (some true) seen rest
    else if c = '-' then modesLetters (some false) seen rest
    else
      match sign with
      | none => none
      | some b =>
        -- each letter once, and only those a channel can keep
        if !"imnpstkl".toList.contains c || seen.any (fun p => p.1 == c) then none
        else modesLetters sign ((c, b) :: seen) rest

/-- A stored mode string: signed letters, each once, then the limit if `+l` is among them. -/
def modesCheck (modes : Str) : ModesStatus :=
  if modes.isEmpty then .ok
  else if utf8Len modes > cModesMax then .tooLong
  else
    let head := modes.takeWhile (· != ' ')
    let arg := splitOnce ' ' modes
    match modesLetters none [] head with
    | none => .badModes
    -- secret and private exclude each other
    | some seen =>
      if seen.isEmpty || (seen.contains ('s', true) && seen.contains ('p', true)) then .badModes
      else
        match arg with
        -- the limit stands behind the letters exactly if `+l` is among them
        | none => if seen.contains ('l', true) then .badModes else .ok
        | some (_, lim) =>
          if !seen.contains ('l', true) || lim.contains ' ' then .badModes
          else
            match parseNum lim with
            | some l => if 1 ≤ l ∧ l ≤ 99999 then .ok else .badModes
            | none => .badModes

/-! ### Channel settings and network defaults -/

/-- The shape of a channel name the console takes. -/
def chanNameShape (s : Str) : Bool := recChanOk s false

/-- The line of a `C`, `D` or `B` record goes to the peers. -/
def announceRecord (s : HubState) (key : GlobalKey) (value : Str) (ts : Int) : HubState :=
  let line := key.tag :: '|' :: value ++ '|' :: ofInt ts ++ ['\n']
  if utf8Len line < 1200 then broadcastSyncToPeers s line else s

/-- Store a value stamped past the record that is there, and announce it. `none` when it was
refused. -/
def storeRecord (clk : Clock) (s : HubState) (key : GlobalKey) (value : Str) (prev : Int) :
    HubState × Bool :=
  let ts := lwwNextTs clk prev
  let p := putRecord clk s key value ts
  if p.2 then (announceRecord p.1 key value ts, true) else p

/-- The value of the live settings record of a channel. -/
def chansetGet (s : HubState) (chan : Str) : Option (Str × Str) :=
  match (globalFind s .C chan).bind (s.globalEntries[·]?) with
  | none => none
  | some e =>
    if globalValueActive e.value then
      some (field e.value 1 (cModesMax + 1), field e.value 2 (cSettingsMax + 1))
    else none

/-- Modes and settings of the network, when there are any. -/
def netsetGet (s : HubState) : Option (Str × Str) :=
  match (globalFind s .D []).bind (s.globalEntries[·]?) with
  | none => none
  | some e =>
    let p := (field e.value 0 (cModesMax + 1), field e.value 1 (dSettingsMax + 1))
    if !p.1.isEmpty || !p.2.isEmpty then some p else none

/-- Replace the settings record of a channel. Without modes and settings it is deleted. -/
def chansetPut (clk : Clock) (s : HubState) (chan modes settings : Str) :
    HubState × ModesStatus :=
  -- the checks of the source, in their order; the first that fails is the answer
  if configFrozen s then (s, .frozen)
  else if !chanNameShape chan then (s, .badChan)
  else
    match chanLive s chan with
    | none => (s, .notManaged)
    | some name =>
      if modesCheck modes ≠ .ok then (s, modesCheck modes)
      else if settingsCheck settings false ≠ .ok then (s, settingsCheck settings false)
      -- nothing to say about a channel that has nothing
      else if modes.isEmpty && settings.isEmpty && (chansetGet s name).isNone then (s, .ok)
      else
        let value :=
          -- without modes and settings the record is a delete
          if modes.isEmpty && settings.isEmpty then name ++ "|||del".toList
          else name ++ '|' :: modes ++ '|' :: settings ++ "|add".toList
        let p := storeRecord clk s .C value (globalTs s .C name)
        (p.1, if p.2 then .ok else .full)

/-- Replace the network defaults. -/
def netsetPut (clk : Clock) (s : HubState) (modes settings : Str) : HubState × ModesStatus :=
  if configFrozen s then (s, .frozen)
  else if modesCheck modes ≠ .ok then (s, modesCheck modes)
  else if settingsCheck settings true ≠ .ok then (s, settingsCheck settings true)
  else
    let p := storeRecord clk s .D (modes ++ '|' :: settings) (globalTs s .D [])
    (p.1, if p.2 then .ok else .full)

/-- The value of a setting in force for a channel. -/
def settingEffective (s : HubState) (chan name : Str) : Str :=
  match settingFind name with
  | none => []
  | some d =>
    -- a setting of the network alone is not looked for at the channel
    let own := if d.netOnly then none
      else (chansetGet s chan).bind fun cs => settingsGet cs.2 name
    match own with
    | some v => v
    | none =>
      match (netsetGet s).bind fun cs => settingsGet cs.2 name with
      | some v => v
      | none => d.builtin

/-! ### Bans -/

/-- Whether a ban mask hits the hostmask of a live bot, or could hit a live user's. -/
def banProtected (s : HubState) (mask : Str) : ModesStatus :=
  if mask.isEmpty then .badMask
  -- the mask of a live bot is a mask of one host
  else if s.bots.any fun b =>
      b.isActive && match b.entry .h with
        | some e =>
          let h := trunc e.value maxMaskLen
          !h.isEmpty && globMatch mask h
        | none => false then .protected_
  -- the masks of users have wildcards themselves, so the two are compared as patterns
  else if s.maskRecords.any fun m =>
      m.isActive && match s.userRecords.find? fun u => u.uuid == m.uuid with
        | some u => u.isActive && hostmaskOverlap mask m.mask
        | none => false then .protected_
  else .ok

/-- Position of a ban. -/
def banFind (s : HubState) (chan mask : Str) : Option Nat :=
  globalFind s .B (trunc (chan ++ '|' :: mask) (maxChan + banMaskMax + 4))

/-- Live bans of a channel by a condition on their values. -/
def liveBans (s : HubState) (chan : Str) (p : Str → Bool) : Nat :=
  s.globalEntries.countP fun e =>
    decide (e.key = .B) && globalValueActive e.value && eqIc (field e.value 0 maxChan) chan
      && p e.value

/-- The setter of a ban as it is stored: one token. -/
def setterText (setter : Str) : Str :=
  ((bytesOf setter).take (banSetterMax - 1)).map fun b =>
    let c := Char.ofNat b.toNat
    if b < 128 && (c.isAlphanum || c == '.' || c == '_' || c == '-') then c else '_'

/-- Ban a mask on a channel or on the network, or change the ban that is there. -/
def banAdd (clk : Clock) (s : HubState) (chan mask : Str) (expires : Int) (sticky : Bool)
    (setter reason : Str) : HubState × ModesStatus :=
  let global := chan == ['*']
  -- the checks of the source, in their order
  if configFrozen s then (s, .frozen)
  else if !global && !chanNameShape chan then (s, .badChan)
  else
    match if global then some ['*'] else chanLive s chan with
    | none => (s, .notManaged)
    | some cname =>
      if !recMaskOk mask then (s, .badMask)
      else if !recTextOk reason banReasonMax then (s, .badReason)
      else if expires ≠ 0 && (expires ≤ clk.now || expires > clk.now + 10 * 365 * 86400) then
        (s, .badExpiry)
      else if banProtected s mask ≠ .ok then (s, banProtected s mask)
      else
        let held := (banFind s cname mask).bind (s.globalEntries[·]?)
        let live := match held with
          | some e => globalValueActive e.value
          | none => false
        -- a live ban that is changed takes no further place
        if !live && liveBans s cname (fun _ => true)
          ≥ (if global then maxGlobalBans else maxBansPerChan)
        then (s, .full)
        else
          -- the mask keeps the spelling it was stored under
          let mname := match held with
            | some e => field e.value 1 (banMaskMax + 1)
            | none => trunc mask (banMaskMax + 1)
          let value := cname ++ '|' :: mname ++ '|' :: ofInt expires
            ++ '|' :: (if sticky then ['s'] else []) ++ '|' :: setterText setter ++ '|' :: reason
            ++ "|add".toList
          if utf8Len value ≥ bLineMax + 64 then (s, .tooLong)
          else
            let p := storeRecord clk s .B value ((held.map (·.timestamp)).getD 0)
            (p.1, if p.2 then .ok else .full)

/-- Lift a ban. -/
def banDel (clk : Clock) (s : HubState) (chan mask : Str) : HubState × ModesStatus :=
  if configFrozen s then (s, .frozen)
  else if chan != ['*'] && !chanNameShape chan then (s, .badChan)
  else if !recMaskOk mask then (s, .badMask)
  else
    match (banFind s chan mask).bind (s.globalEntries[·]?) with
    | none => (s, .notFound)
    | some e =>
      if !globalValueActive e.value then (s, .notFound)
      else
        let p := storeRecord clk s .B (sweepTombstone e.value) e.timestamp
        (p.1, if p.2 then .ok else .notFound)

/-- Minutes a ban of a bot may last. -/
def chanBantime (s : HubState) (chan : Str) : Int :=
  (parseNum (trunc (settingEffective s chan "bantime".toList) 16)).getD bantimeDefaultMin

/-- A ban a bot pushed. It bans in one managed channel and signs its bans; it lifts only its own,
and adds only timed ones within the channel's bantime, over no protected mask, no ban of another,
and no more than `botBansPerChan` per channel. -/
def banBotWrite (clk : Clock) (s : HubState) (botUuid value : Str) (ts : Int) : HubState × Bool :=
  -- a bot's clock may be up to five minutes ahead
  if ts ≤ 0 || ts > clk.now + 300 || configFrozen s || !recordValid .B value then (s, false)
  else
    let chan := field value 0 maxChan
    let mask := field value 1 (banMaskMax + 1)
    let setter := field value 4 banSetterMax
    let op := trunc ((rsplitOnce '|' value).map (·.2) |>.getD []) 8
    let held := (banFind s chan mask).bind (s.globalEntries[·]?)
    let live := match held with
      | some e => globalValueActive e.value
      | none => false
    let mine := match held with
      | some e => field e.value 4 banSetterMax == botUuid
      | none => false
    -- the network's bans, other channels and other setters are not the bot's
    if chan.head? = some '*' || (chanLive s chan).isNone || setter != botUuid then (s, false)
    -- it lifts what it set itself
    else if op == "del".toList then
      if live && mine then putRecord clk s .B value ts else (s, false)
    else
      let expires := atoll (field value 2 16)
      let bt := chanBantime s chan
      let cap := (if bt > 0 then bt else 525600) * 60 + banBotSlack
      -- timed, not sticky, and not beyond the bantime of the channel
      if expires ≤ clk.now || !(field value 3 8).isEmpty || expires - clk.now > cap
        then (s, false)
      -- no ban of somebody else is changed
      else if live && !mine then (s, false)
      else if banProtected s mask ≠ .ok then (s, false)
      -- a ban that is renewed takes no further place
      else if !live && liveBans s chan (fun v => field v 4 banSetterMax == botUuid)
        ≥ botBansPerChan
      then (s, false)
      else putRecord clk s .B value ts

end IrcHub.Hub
