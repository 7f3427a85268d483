import IrcHub.Hub.State
import IrcHub.Lib.Table

/-!
# `IrcHub.Hub.Global`: the global table and its index

The global table of `state.rs` and its index. Entries of the table are found through an index by
class and folded identity. The index, the counts per class and the count of live bans per channel
are kept along with the table:

* `globalNoteNew` after an append
* `gbanAdjust` when a ban goes live or is deleted
* `globalReindex` after a change behind the store's back, such as a purge

The identity of a record is a prefix of its value: the channel, or the channel and the mask of a
ban, or nothing for a kind with one record. The source keeps it as a byte offset into the value;
`ident` and `identTail` are the two sides of that offset. `gkey` folds it where the kind ignores
case.

A class has a ceiling. A record that does not fit may take the room of a tombstone
(`evictOldestTombstone`), the oldest one, if that is old enough.
-/

set_option autoImplicit false

namespace IrcHub.Hub

open Str
open Table (swapRemove)
open String (utf8Len)

/-- An entry of the global table. -/
abbrev GlobalEntry := ConfigEntry GlobalKey

/-- The part of a stored value before its first bar, the whole value without one. -/
def firstField (value : Str) : Str := (cut '|' 0 value).1

/-- Record kinds with their own op and field set. -/
def keyIsModes : GlobalKey → Bool
  | .C | .D | .B => true
  | _ => false

/-- Record kinds with one record: every value addresses it. -/
def keyIsSingleton : GlobalKey → Bool
  | .a | .p | .D => true
  | _ => false

/-- Record kinds whose identity ignores ASCII case. -/
def keyFoldsCase : GlobalKey → Bool
  | .c | .C | .B => true
  | _ => false

/-- How many bars the identity prefix of a value holds: a ban's is channel and mask. -/
def identBars : GlobalKey → Nat
  | .B => 1
  | _ => 0

/-- The identity prefix of a value. -/
def ident (key : GlobalKey) (v : Str) : Str := (cut '|' (identBars key) v).1

/-- What follows the identity prefix, from its bar on. -/
def identTail (key : GlobalKey) (v : Str) : Str := (cut '|' (identBars key) v).2

/-- Whether two values of one kind are the same record. -/
def globalIdentityEq (key : GlobalKey) (a b : Str) : Bool :=
  if keyIsSingleton key then true
  else if utf8Len (ident key a) ≠ utf8Len (ident key b) then false
  else if keyFoldsCase key then eqIc (ident key a) (ident key b)
  else ident key a == ident key b

/-- The identity of a value as a hash key. -/
def gkey (key : GlobalKey) (value : Str) : Str :=
  let k := [key.tag, '\x00']
  if keyIsSingleton key then k
  else if keyFoldsCase key then k ++ lower (ident key value)
  else k ++ ident key value

/-- Index of the entry that `value` under `key` addresses. -/
def globalFind (s : HubState) (key : GlobalKey) (value : Str) : Option Nat :=
  s.globalIdx.map (gkey key value)

/-- The index after a ban with this value went live (`up`) or was deleted. -/
def GlobalIdx.gbanAdjust (ix : GlobalIdx) (v : Str) (up : Bool) : GlobalIdx :=
  let chan := firstField v
  if utf8Len chan ≥ maxChan then ix
  else
    let n := ix.banChan (lower chan)
    { ix with
      banChan := fun c => if c = lower chan then (if up then n + 1 else n - 1) else ix.banChan c }

/-- One more entry of a class. -/
def GlobalIdx.bump (ix : GlobalIdx) : GlobalKey → GlobalIdx
  | .C => { ix with nC := ix.nC + 1 }
  | .D => { ix with nD := ix.nD + 1 }
  | .B => { ix with nB := ix.nB + 1 }
  | _ => { ix with nOld := ix.nOld + 1 }

/-- The index after entry `e` was appended at position `i`. An identity that is already there
keeps its first position. -/
def GlobalIdx.note (ix : GlobalIdx) (e : GlobalEntry) (i : Nat) : GlobalIdx :=
  let k := gkey e.key e.value
  let map := fun x => if x = k then some ((ix.map k).getD i) else ix.map x
  let ix := { ix with map := map }.bump e.key
  if e.key = .B && globalValueActive e.value then ix.gbanAdjust e.value true else ix

/-- Entry `i` was just appended to the global table. -/
def globalNoteNew (s : HubState) (i : Nat) : HubState :=
  match s.globalEntries[i]? with
  | some e => { s with globalIdx := s.globalIdx.note e i }
  | none => s

/-- The global table was changed behind the store's back: rebuild the index and the
counts. -/
def globalReindex (s : HubState) : HubState :=
  (List.range s.globalEntries.length).foldl globalNoteNew { s with globalIdx := {} }

/-- Append an entry and note it. -/
def globalPush (s : HubState) (e : GlobalEntry) : HubState :=
  globalNoteNew { s with globalEntries := s.globalEntries ++ [e] } s.globalEntries.length

/-- Room for one more entry of the key's class. -/
def globalRoom (s : HubState) (key : GlobalKey) : Bool :=
  let ix := s.globalIdx
  let room := match key with
    | .C => decide (ix.nC < maxChannels)
    | .D => decide (ix.nD < 1)
    | .B => decide (ix.nB < maxBansTotal)
    | _ => decide (ix.nOld < maxBotEntries)
  room && decide (s.globalEntries.length < maxGlobalEntries)

/-- Stored stamp of the entry that `value` under `key` addresses, 0 for none. -/
def globalTs (s : HubState) (key : GlobalKey) (value : Str) : Int :=
  match globalFind s key value with
  | some i => (s.globalEntries[i]?.map (·.timestamp)).getD 0
  | none => 0

/-- Live bans stored for a channel, `"*"` being the network-wide ones. -/
def bansLiveIn (s : HubState) (chan : Str) : Nat := s.globalIdx.banChan (lower chan)

/-- Live-ban ceiling of a channel. -/
def banCeiling (chan : Str) : Nat :=
  if chan.head? = some '*' then maxGlobalBans else maxBansPerChan

/-- Whether a value of this class is live. The network defaults have no op and always are. -/
def recActive (key : GlobalKey) (value : Str) : Bool := key = .D || globalValueActive value

/-- Whether an entry is live. -/
def entryActive (e : GlobalEntry) : Bool := recActive e.key e.value

/-- The first field of a stored value is the channel, ASCII case aside. -/
def entryChanEq (e : GlobalEntry) (chan : Str) : Bool := eqIc (firstField e.value) chan

/-- Which tombstone of a class to drop for room: the first of the oldest, none younger than
`newestOk`. -/
def oldestTombstone (es : List GlobalEntry) (key : GlobalKey) (newestOk : Int) : Option Nat :=
  es.zipIdx.foldl (fun best p =>
    if p.1.key ≠ key || entryActive p.1 || p.1.timestamp > newestOk then best
    else
      match best with
      | none => some p
      | some b => if p.1.timestamp < b.1.timestamp then some p else best) none
  |>.map (·.2)

/-- Drop the oldest tombstone of a class to make room. One younger than the purge horizon
(7 days when purge is off) is never dropped. `none` when there is none to drop. -/
def evictOldestTombstone (clk : Clock) (s : HubState) (key : GlobalKey) : Option HubState :=
  let keep := if s.purgeDaysSetting > 0 then s.purgeDaysSetting * 86400 else tombMinAgeOff
  (oldestTombstone s.globalEntries key (clk.now - keep)).map fun b =>
    globalReindex { s with globalEntries := swapRemove s.globalEntries b }

end IrcHub.Hub
