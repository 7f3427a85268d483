import IrcHub.Hub.Global

/-!
# `IrcHub.Hub.Records`: the `C`, `D` and `B` records

The single ingest point of channel settings, network defaults and bans, from `storage.rs` and
`modes.rs`. A stored value is the line between the tag and the stamp:

- `C`: `chan|modes|settings|op`
- `D`: `modes|settings`, no op, never deleted
- `B`: `chan|mask|expires|flags|setter|reason|op`, where the reason may hold bars

Every writer ends up in `putRecord`, so field caps and charsets are enforced once (`recordValid`),
and so are last-writer-wins (`recAccepts`) and the ceilings.

- `recordValid`: the syntax of one value, by the fields of its kind. A ban is split from both
  ends, since only its reason may hold a bar
- `recAccepts`: a newer stamp wins, on a tie a delete beats an add, and of two of one kind the
  greater value does
- `recNorm`: the value to store over a held one keeps the stored spelling of channel and mask
- `putOver`, `putNew`: a record the hub holds, and one it does not. A new live ban needs room in
  its channel, a new record needs room in its class, and a tombstone is not created below a purge
  floor

The result says whether the record was stored, and a refusal leaves the tables alone.
-/

set_option autoImplicit false

namespace IrcHub.Hub

open Str
open String (utf8Len)

/-! ### Field checks -/

/-- Split a value into exactly `want` fields. `none` when it is too long or has another
field count. -/
def recSplit (value : Str) (want cap : Nat) : Option (List Str) :=
  if utf8Len value ≥ cap || decide (want > 8) then none
  else
    let f := value.splitOn '|'
    if f.length = want then some f else none

/-- A channel name the bots can join, or `"*"` where that is allowed. -/
def recChanOk (s : Str) (starOk : Bool) : Bool :=
  (starOk && s == ['*']) ||
    (decide (2 ≤ utf8Len s) && decide (utf8Len s < maxChan)
      && (s.head? == some '#' || s.head? == some '&')
      && s.all fun c => decide (c.toNat > 0x20) && c != ',' && c.toNat != 0x7f && c != '|')

/-- Free text without control characters. -/
def recTextOk (s : Str) (max : Nat) : Bool :=
  decide (utf8Len s ≤ max) && s.all fun c => decide (c.toNat ≥ 0x20) && c.toNat != 0x7f

/-- A hostmask pattern: printable ASCII, no blank, comma or bar. -/
def recMaskOk (s : Str) : Bool :=
  !s.isEmpty && decide (utf8Len s ≤ banMaskMax)
    && s.all fun c =>
      decide (c.toNat > 0x20) && decide (c.toNat < 0x7f) && c != ',' && c != '|'

/-- A mode string. -/
def recModesOk (s : Str) : Bool :=
  decide (utf8Len s ≤ cModesMax)
    && s.all fun c => c.isAlphanum || c == '+' || c == '-' || c == ' '

/-- The comma-separated tokens of a settings string. A single trailing comma yields
nothing. -/
def settingsTokens (s : Str) : List Str :=
  let toks := s.splitOn ','
  if toks.getLast? = some [] then toks.dropLast else toks

/-- `name=value,name=value`: printable ASCII, every token has a name and an `=`. -/
def recSettingsOk (s : Str) (max : Nat) : Bool :=
  decide (utf8Len s ≤ max)
    && s.all (fun c => decide (0x20 ≤ c.toNat) && decide (c.toNat < 0x7f) && c != '|')
    && (settingsTokens s).all fun t =>
      match splitOnce '=' t with
      | some (name, _) => !name.isEmpty
      | none => false

/-- Up to 11 decimal digits. -/
def recNumOk (s : Str) : Bool :=
  !s.isEmpty && decide (utf8Len s ≤ 11) && s.all Char.isDigit

/-- The op of a record. -/
def recOpOk (s : Str) : Bool := s == "add".toList || s == "del".toList

/-- The flags of a ban: up to four `s`. -/
def recFlagsOk (s : Str) : Bool := s.all (· == 's') && decide (s.length ≤ 4)

/-- The setter of a ban: an admin name or a bot uuid. -/
def recSetterOk (s : Str) : Bool :=
  decide (utf8Len s < banSetterMax)
    && s.all fun c => c.isAlphanum || c == '.' || c == '_' || c == '-'

/-- A ban without its reason and op: channel, mask, expiry, flags, setter. -/
def recBanHeadOk : List Str → Bool
  | [chan, mask, expires, flags, setter] =>
    recChanOk chan true && recMaskOk mask && recNumOk expires && recFlagsOk flags
      && recSetterOk setter
  | _ => false

/-- Syntax check of one stored value. A ban's reason is everything between its fifth bar and
its last bar. -/
def recordValid (key : GlobalKey) (value : Str) : Bool :=
  let buf := 1100
  match key with
  | .C =>
    match recSplit value 4 buf with
    | some [chan, modes, settings, op] =>
      recChanOk chan false && recModesOk modes && recSettingsOk settings cSettingsMax
        && recOpOk op
    | _ => false
  | .D =>
    match recSplit value 2 buf with
    | some [modes, settings] => recModesOk modes && recSettingsOk settings dSettingsMax
    | _ => false
  | .B =>
    if utf8Len value ≥ buf then false
    else
      match cut '|' 4 value with
      | (head, '|' :: rest) =>
        match rsplitOnce '|' rest with
        | none => false
        | some (reason, op) =>
          if !recOpOk op then false
          else
            match recSplit head 5 buf with
            | none => false
            | some f => recBanHeadOk f && recTextOk reason banReasonMax
      | _ => false
  | _ => false

/-! ### Store -/

/-- Acceptance of these records: a newer stamp wins, on a tie a delete beats an add, and
between two of the same kind the greater value wins. -/
def recAccepts (clk : Clock) (inTs : Int) (inVal : Str) (inActive : Bool)
    (curTs : Int) (curVal : Str) (curActive : Bool) : Bool :=
  if tsAhead clk inTs then false
  else if inTs ≠ curTs then decide (inTs > curTs)
  else if curActive ≠ inActive then curActive && !inActive
  else decide (inVal > curVal)

/-- The value to store over `stored`: the spelling of the channel and mask stays the first
writer's. -/
def recNorm (key : GlobalKey) (stored value : Str) : Str :=
  if key = .D then value else ident key stored ++ identTail key value

/-- No live ban may be added to the channel of this value. -/
def banRefused (s : HubState) (value : Str) : Bool :=
  let chan := firstField value
  decide (utf8Len chan ≥ maxChan) || decide (bansLiveIn s chan ≥ banCeiling chan)

/-- Entry `i`, which holds `e`, takes a new value and stamp. A ban that changes sides is
recounted. -/
def overwrite (s : HubState) (i : Nat) (e : GlobalEntry) (norm : Str) (ts : Int)
    (inActive : Bool) : HubState :=
  { s with
    globalEntries := s.globalEntries.set i { e with value := norm, timestamp := ts }
    globalIdx :=
      if e.key = .B && (entryActive e != inActive) then s.globalIdx.gbanAdjust norm inActive
      else s.globalIdx }

/-- Overwrite entry `i`, which holds `e`, if the record wins. -/
def putOver (clk : Clock) (s : HubState) (key : GlobalKey) (value : Str) (ts : Int)
    (i : Nat) (e : GlobalEntry) : HubState × Bool :=
  let inActive := recActive key value
  let norm := recNorm key e.value value
  if key ≠ .D && decide (utf8Len norm ≥ 1024) then (s, false)
  else if !recAccepts clk ts norm inActive e.timestamp e.value (entryActive e) then (s, false)
  else if key = .B && inActive && !entryActive e && banRefused s norm then
    -- a deleted ban coming back counts against the ceilings again
    (s, false)
  else (overwrite s i e norm ts inActive, true)

/-- Append a record the hub does not hold. -/
def putNew (clk : Clock) (s : HubState) (key : GlobalKey) (value : Str) (ts : Int) :
    HubState × Bool :=
  let inActive := recActive key value
  let e := { key := key, value := value, timestamp := ts, lastUsed := 0 }
  if !inActive && purgeFloorBlocks clk s ts then (s, false)
  else if key = .B && inActive && banRefused s value then (s, false)
  else if globalRoom s key then (globalPush s e, true)
  else
    match evictOldestTombstone clk s key with
    | none => (s, false)
    | some s' => if globalRoom s' key then (globalPush s' e, true) else (s', false)

/-- Store one `C`, `D` or `B` record: the full stored value with its op, and the stamp.
`false` says rejected or not newer. -/
def putRecord (clk : Clock) (s : HubState) (key : GlobalKey) (value : Str) (ts : Int) :
    HubState × Bool :=
  if !keyIsModes key || ts ≤ 0 || tsAhead clk ts then (s, false)
  else if !recordValid key value then (s, false)
  else
    match globalFind s key value with
    | some i =>
      match s.globalEntries[i]? with
      | some e => putOver clk s key value ts i e
      | none => (s, false)
    | none => putNew clk s key value ts

end IrcHub.Hub
