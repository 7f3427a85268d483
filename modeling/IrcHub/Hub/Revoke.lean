import IrcHub.Hub.Access
import IrcHub.Hub.Cstr
import IrcHub.Lib.Table

/-!
# `IrcHub.Hub.Revoke`: revoked bots and the settings of the mesh

Revoked bots and the settings of the mesh, from `revoke.rs`. A deleted bot that had a key stays on
the revoke list: `rv|uuid|pub|pub_ts|nick|wiped|del_ts`. It may prove itself with that key once
more, and is then told to wipe itself.

- `revokeParse`, `revokeFormat`: a line of the list. Every field is checked; a bad one drops the
  line
- `revokeJoin`: two entries of one uuid: the newer key, the nick that is there, the last wipe, the
  first delete
- `revokeMerge`: union merge of one entry. A full list drops its oldest entry (`oldestRevoked`),
  or refuses the new one if that is older than all
- `revokeFromBot`: a deleted bot that has a key goes on the list

The list is merged as a union, so an entry is only ever removed by a full list. `revokeJoin`
decides each field by itself, and not the entry by one stamp.

A setting the whole mesh shares is `hs|name|value|ts`, the newer stamp winning and on a tie the
greater value. There is one setting, the age at which tombstones are purged.
-/

set_option autoImplicit false

namespace IrcHub.Hub

open Str
open Table (swapRemove)
open String (utf8Len)

/-! ### Settings -/

/-- The name of the one shared setting. -/
def autopurgeName : Str := "autopurge".toList

/-- The greatest value of the setting, in days. -/
abbrev autopurgeMax : Int := 36500

/-- The line of the setting. -/
def gsettingFormat (s : HubState) : Str :=
  "hs|".toList ++ autopurgeName ++ '|' :: ofInt s.purgeDaysSetting ++ '|' :: ofInt s.purgeDaysTs
    ++ ['\n']

/-- A local change, stamped past the previous one. -/
def gsettingSet (clk : Clock) (s : HubState) (name : Str) (value : Int) : HubState × Bool :=
  if name ≠ autopurgeName || value < 0 || value > autopurgeMax then (s, false)
  else
    ({ s with purgeDaysSetting := value, purgeDaysTs := lwwNextTs clk s.purgeDaysTs }, true)

/-- The fields of `name|value|ts`: a known name, a value in range, a positive stamp. -/
def gsettingParse (rest : Str) : Option (Int × Int) :=
  match splitOnce '|' rest with
  | none => none
  | some (name, after) =>
    if name ≠ autopurgeName then none
    else
      let (v, n) := strtoll after
      match after.drop n with
      | '|' :: tsText =>
        let (ts, m) := strtoll tsText
        if n = 0 || v < 0 || v > autopurgeMax || m = 0 || m ≠ tsText.length || ts ≤ 0 then none
        else some (v, ts)
      | _ => none

/-- Take a setting line if it wins. -/
def gsettingIngest (clk : Clock) (s : HubState) (rest : Str) : HubState × Option Bool :=
  match gsettingParse rest with
  | none => (s, none)
  | some (v, ts) =>
    if tsAhead clk ts then (s, none)
    else if ts > s.purgeDaysTs || (ts = s.purgeDaysTs && v > s.purgeDaysSetting) then
      ({ s with purgeDaysSetting := v, purgeDaysTs := ts }, some true)
    else (s, some false)

/-- The stamped settings, for a full sync. -/
def gsettingAppend (s : HubState) : Str := if s.purgeDaysTs > 0 then gsettingFormat s else []

/-! ### Fields of the revoke list -/

/-- A combined public key as the revoke list takes it: 88 characters that decode to 64 bytes. Of
the texts of that length only those with two padding characters do. -/
def pubOk (k : Str) : Bool :=
  decide (utf8Len k = combinedKeyB64)
    && match b64Decode true k with
      | some bytes => decide (bytes.length = 64)
      | none => false

/-- A nick as the console may show it, dropped when it is too long or not printable. -/
def nickClean (src : Str) : Str :=
  if utf8Len src ≥ maxNick
      || src.any fun c =>
        decide (c.toNat ≤ 0x20) || decide (c.toNat = 0x7f) || c == '|' || decide (c.toNat ≥ 0x80)
  then []
  else src

/-- A number field: all of it digits, not negative. -/
def revokeNum (f : Str) : Option Int :=
  if f.isEmpty || utf8Len f ≥ 24 then none
  else
    let (v, n) := strtoll f
    if n = f.length && v ≥ 0 then some v else none

/-- The entry of a line, without its `rv|`. Every field is checked; a bad line is dropped
whole. -/
def revokeParse (rest : Str) : Option Revoked :=
  match rest.splitOn '|' with
  | [uuid, pk, pubTs, nick, wiped, del] =>
    if !uuidShape uuid || !pubOk pk then none
    else do
      let pubTs ← revokeNum pubTs
      let wipedTs ← revokeNum wiped
      let delTs ← revokeNum del
      if delTs > 0 then
        some { uuid := uuid, pubKey := pk, pubTs := pubTs, nick := nickClean nick,
               wipedTs := wipedTs, delTs := delTs }
      else none
  | _ => none

/-- The line of an entry. -/
def revokeFormat (r : Revoked) : Str :=
  "rv|".toList ++ r.uuid ++ '|' :: r.pubKey ++ '|' :: ofInt r.pubTs ++ '|' :: r.nick
    ++ '|' :: ofInt r.wipedTs ++ '|' :: ofInt r.delTs ++ ['\n']

/-- The whole list, for a full sync. -/
def revokeAppend (s : HubState) : Str := s.revoked.flatMap revokeFormat

/-! ### The list -/

/-- Position of an entry. -/
def revokeFind (s : HubState) (uuid : Str) : Option Nat :=
  s.revoked.findIdx? (fun r => r.uuid == uuid)

/-- Whether a uuid is on the list. -/
def isRevoked (s : HubState) (uuid : Str) : Bool := (revokeFind s uuid).isSome

/-- The order a full list is trimmed in. -/
def revokedOlder (a b : Revoked) : Bool :=
  decide (a.delTs < b.delTs) || (decide (a.delTs = b.delTs) && decide (a.uuid < b.uuid))

/-- The first of the oldest entries, with its position. -/
def oldestRevoked (rs : List Revoked) : Option (Revoked × Nat) :=
  rs.zipIdx.foldl (fun best p =>
    match best with
    | none => some p
    | some b => if revokedOlder p.1 b.1 then some p else best) none

/-- A full list takes the entry in place of its oldest, unless the entry itself is older. -/
def revokeRefused (s : HubState) (inp : Revoked) : Bool :=
  decide (s.revoked.length ≥ maxRevoked)
    && match oldestRevoked s.revoked with
      | none => true
      | some (old, _) => revokedOlder inp old

/-- An entry not on the list yet. -/
def revokeNew (s : HubState) (inp : Revoked) : HubState × Bool :=
  if revokeRefused s inp then (s, false)
  else if s.revoked.length ≥ maxRevoked then
    match oldestRevoked s.revoked with
    | none => (s, false)
    | some (_, i) => ({ s with revoked := swapRemove s.revoked i ++ [inp] }, true)
  else ({ s with revoked := s.revoked ++ [inp] }, true)

/-- Two entries of one uuid: the newer key, the first nick, the last wipe, the first delete. -/
def revokeJoin (r inp : Revoked) : Revoked :=
  let newer := inp.pubTs > r.pubTs || (inp.pubTs = r.pubTs && inp.pubKey > r.pubKey)
  { r with
    pubKey := if newer then inp.pubKey else r.pubKey
    pubTs := if newer then inp.pubTs else r.pubTs
    nick := if r.nick.isEmpty then inp.nick else r.nick
    wipedTs := max r.wipedTs inp.wipedTs
    delTs := min r.delTs inp.delTs }

/-- Union merge of one entry. `true` says that the list changed. -/
def revokeMerge (s : HubState) (inp : Revoked) : HubState × Bool :=
  match revokeFind s inp.uuid with
  | none => revokeNew s inp
  | some i =>
    match s.revoked[i]? with
    | none => (s, false)
    | some r =>
      ({ s with revoked := s.revoked.set i (revokeJoin r inp) }, decide (revokeJoin r inp ≠ r))

/-- What the entries of a bot say about its revocation. -/
def revokeOf (b : BotConfig) : Revoked × Bool :=
  b.entries.foldl (fun p e =>
    match e.key with
    | .pub =>
        if pubOk e.value then ({ p.1 with pubKey := e.value, pubTs := e.timestamp }, true) else p
    | .n => ({ p.1 with nick := nickClean e.value }, p.2)
    | .d => ({ p.1 with delTs := e.timestamp }, p.2)
    | _ => p)
    ({ uuid := b.uuid, pubKey := [], pubTs := 0, nick := [], wipedTs := 0, delTs := 0 }, false)

/-- A deleted bot that has a key goes on the list. -/
def revokeFromBot (s : HubState) (b : BotConfig) : HubState × Bool :=
  if b.isActive || !uuidShape b.uuid then (s, false)
  else
    let (r, havePub) := revokeOf b
    if !havePub || r.delTs ≤ 0 then (s, false) else revokeMerge s r

/-- The bot wiped itself: stamp its entry. -/
def revokeMarkWiped (s : HubState) (uuid : Str) (now : Int) : HubState :=
  match revokeFind s uuid with
  | none => s
  | some i =>
    { s with revoked := s.revoked.modify i fun r => { r with wipedTs := max r.wipedTs now } }

end IrcHub.Hub
