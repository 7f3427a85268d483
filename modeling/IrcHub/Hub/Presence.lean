import IrcHub.Hub.Upgrade
import IrcHub.Hub.Users
import IrcHub.Lib.Table

/-!
# `IrcHub.Hub.Presence`: who is on the mesh

Who is on the mesh, from `presence.rs`. Every hub tells the mesh which bots are on it. A roster
frame carries its origin and start time (`h|`), the code base (`v|`), the relay control (`g|`:
round, chunk, hops left), the origin's peer links (`l|`) and its bots (`b|`). A hub that has not
seen the frame applies it and passes it on.

- `rosterFramePeek`: the relay control of a frame, read before anything is applied
- `MeshHub.window`: whether the frame is news. One round and a mask of 64 chunks per origin
- `takeFrame`: the map after the window was asked. What the window forgets when the origin has
  started again stays forgotten, whether the frame is then taken or not
- `processBotRoster`: the frame as a whole, `rosterLine` one line of it
- `relayFrame`: the frame for the next hop, with one hop less
- `rosterExpire`: the aging of what the frames left

A frame without relay control is from a peer about itself and is always applied. A frame of an
origin the map has no room for is applied as well, and not remembered.

The numbers in a frame are read by `atoi`, so they may be negative or wrapped, and a chunk from 64
on has no bit in the mask.

Left out: the dirty flags of the tree, the upgrade run that listens to the headers.
-/

set_option autoImplicit false

namespace IrcHub.Hub

open Str
open String (utf8Len)

abbrev maxMeshHubs : Nat := 64
abbrev maxBotRoster : Nat := (maxPeers + 1) * maxBots
abbrev botRosterTtl : Int := 240
abbrev rosterRelayHops : Int := 16
abbrev rosterFrameBudget : Nat := 8192
abbrev rosterVariantMax : Nat := 7
abbrev rosterServerMax : Nat := 63
abbrev rosterIpMax : Nat := 45

def hubLinkSeqVersion : Str := "2.5.2".toList

/-! ### State -/

/-- A link of another hub, as that hub reports it. -/
structure MeshLink where
  uuid : Str
  name : Str
  online : Bool
  deriving Repr, DecidableEq

/-- A hub of the mesh, as its gossip describes it. `round` is the newest generation seen from it,
bit `n` of `chunksSeen` says that chunk `n` of it was applied. -/
structure MeshHub where
  uuid : Str
  name : Str := []
  started : Int := 0
  version : Str := []
  variant : Str := []
  links : List MeshLink := []
  haveLinks : Bool := false
  round : Int := -1
  chunksSeen : BitVec 64 := 0
  reportedAt : Int := 0
  deriving Repr, DecidableEq

/-- A bot, as the hub it is connected to reports it. -/
structure BotRoster where
  hubUuid : Str
  hubName : Str := []
  botUuid : Str
  nick : Str := []
  version : Str := []
  variant : Str := []
  server : Str := []
  connectedAt : Int := 0
  linkSince : Int := 0
  ip : Str := []
  reportedAt : Int := 0
  deriving Repr, DecidableEq

/-- A configured peer and what its headers said. `linked` says that the link is up. -/
structure PresencePeer where
  uuid : Str
  friendlyName : Str := []
  ip : Str := []
  linked : Bool := false
  remoteStarted : Int := 0
  remoteVersion : Str := []
  remoteVariant : Str := []
  deriving Repr, DecidableEq

/-- What a hub knows of the mesh. `revoked` are the deleted bots. -/
structure Presence where
  hubUuid : Str
  peers : List PresencePeer := []
  meshHubs : List MeshHub := []
  roster : List BotRoster := []
  revoked : List Str := []
  deriving Repr, DecidableEq

/-- Control characters and bars are dropped, the rest is cut to the buffer. -/
def rosterClean (src : Str) (cap : Nat) : Str :=
  trunc (src.filter fun c => decide (c.toNat ≥ 0x20) && c.toNat != 0x7f && c != '|') cap

/-! ### The mesh map and the roster -/

def meshHubFind (s : Presence) (uuid : Str) : Option Nat := s.meshHubs.findIdx? fun h =>
  h.uuid == uuid

/-- Place of a hub in the map, created on first sight. `none` when the map is full. -/
def meshHubGet (s : Presence) (uuid : Str) : Presence × Option Nat :=
  match meshHubFind s uuid with
  | some i => (s, some i)
  | none =>
    if s.meshHubs.length ≥ maxMeshHubs then (s, none)
    else ({ s with meshHubs := s.meshHubs ++ [{ uuid := uuid }] }, some s.meshHubs.length)

/-- Add or refresh a reported bot. A deleted bot is not listed. -/
def rosterUpsert (s : Presence) (e : BotRoster) : Presence :=
  if s.revoked.contains e.botUuid then s
  else
    match s.roster.findIdx? fun r => r.hubUuid == e.hubUuid && r.botUuid == e.botUuid with
    | some i => { s with roster := s.roster.set i e }
    | none =>
      if s.roster.length ≥ maxBotRoster then s else { s with roster := s.roster ++ [e] }

/-- Drop the roster rows from `i` on that nobody refreshed. The last row takes the place of a
dropped one and is looked at next; every look ends a row or moves past it. -/
def expireRows (now : Int) : Nat → Nat → List BotRoster → List BotRoster
  | 0, _, rows => rows
  | fuel + 1, i, rows =>
    match rows[i]? with
    | none => rows
    | some e =>
      -- the row that took the place is looked at next
      if now - e.reportedAt > botRosterTtl then expireRows now fuel i (Table.swapRemove rows i)
      else expireRows now fuel (i + 1) rows

/-- Drop what nobody refreshed within the TTL. -/
def rosterExpire (now : Int) (s : Presence) : Presence :=
  { s with
    roster := expireRows now s.roster.length 0 s.roster
    meshHubs := s.meshHubs.filter fun h => decide (now - h.reportedAt ≤ botRosterTtl) }

/-! ### The relay control -/

/-- Round, chunk and hops left. -/
structure RelayControl where
  round : Int
  chunk : Nat
  ttl : Int
  deriving Repr, DecidableEq

/-- Origin and start time of a frame, and its relay control. -/
structure FramePeek where
  origin : Str := []
  started : Int := 0
  control : Option RelayControl := none
  deriving Repr, DecidableEq

/-- The relay control of a `g|` line. -/
def readControl (body : Str) : Option RelayControl :=
  match body.splitOn '|' with
  | round :: chunk :: ttl :: _ =>
    -- a control without a round is none
    if round.isEmpty then none
    else some ⟨atoll round, (max 0 (min (atoll chunk) 4294967295)).toNat,
      max (-2147483648) (min (atoll ttl) 2147483647)⟩
  | _ => none

def peekLine (p : FramePeek) : Str → FramePeek
  | 'h' :: '|' :: body =>
    -- only the first header names the origin
    if p.origin.isEmpty then
      let f := body.splitOn '|'
      { p with origin := rosterClean (f.headD []) 64, started := ((f[2]?).map atoll).getD 0 }
    else p
  -- and only the first control counts
  | 'g' :: '|' :: body => if p.control.isNone then { p with control := readControl body } else p
  | _ => p

/-- Origin, start time and relay control of a frame. -/
def rosterFramePeek (payload : Str) : FramePeek := (payload.splitOn '\n').foldl peekLine {}

/-- The same frame for the next hop. -/
def rosterFrameRettl (payload : Str) (g : RelayControl) (ttl : Int) : Str :=
  ((payload.splitOn '\n').filter fun l => !l.isEmpty).flatMap fun l =>
    match l with
    | 'g' :: '|' :: _ =>
      "g|".toList ++ ofInt g.round ++ '|' :: ofInt g.chunk ++ '|' :: ofInt ttl ++ ['\n']
    | _ => l ++ ['\n']

/-- The bit of a chunk. Chunks from 64 on have none. -/
def chunkBit (chunk : Nat) : BitVec 64 := if chunk < 64 then 1#64 <<< chunk else 0

/-- The window of an origin after a frame of this start time, round and chunk, and whether the
frame is news. A window that starts over stays empty where the frame then is no news. -/
def MeshHub.window (h : MeshHub) (started : Int) (round : Int) (chunk : Nat) : MeshHub × Bool :=
  -- a restarted origin starts its generations over
  let h := if started > 0 && h.started > 0 && started ≠ h.started then
      { h with round := -1, chunksSeen := 0 } else h
  let bit := chunkBit chunk
  -- a round that is over
  if round < h.round then (h, false)
  -- a chunk of this round that was seen, or one that has no bit
  else if round = h.round && (bit = 0 || h.chunksSeen &&& bit ≠ 0) then (h, false)
  else
    -- a new round has seen nothing yet
    let h := if round > h.round then { h with round := round, chunksSeen := 0 } else h
    ({ h with chunksSeen := h.chunksSeen ||| bit }, true)

/-! ### A frame -/

/-- The link a frame arrived on: its peer's uuid, and whether it offered the sequenced framing. -/
structure FrameLink where
  peerUuid : Str
  linkOffered : Bool

/-- What the walk over the lines of a frame carries along. -/
structure RosterWalk where
  state : Presence
  hubUuid : Str := []
  hubName : Str := []
  linksReset : Bool := false
  /-- The link was refused; the rest of the frame is not read. -/
  refused : Bool := false

/-- A change to the map entry of the frame's origin, if it is the hub the lines speak of. -/
def RosterWalk.modifyHub (w : RosterWalk) (mh : Option Nat) (f : MeshHub → MeshHub) :
    RosterWalk :=
  match mh with
  | none => w
  | some mi =>
    { w with state := { w.state with
        meshHubs := w.state.meshHubs.modify mi fun h => if h.uuid == w.hubUuid then f h else h } }

/-- A change to the first peer of the uuid. -/
def modifyPeer (s : Presence) (uuid : Str) (f : PresencePeer → PresencePeer) : Presence :=
  match s.peers.findIdx? fun p => !p.uuid.isEmpty && p.uuid == uuid with
  | none => s
  | some i => { s with peers := s.peers.modify i f }

/-- Whether a header ends the link it came over: its own hub runs a version below the floor, or
one that offers the sequenced framing and did not. -/
def headerRefused (link : Option FrameLink) (hubUuid version : Str) : Bool :=
  match link with
  | none => false
  | some l =>
    !version.isEmpty && hubUuid == l.peerUuid
      && (versionCmp version meshMinVersion == .lt
        || (!l.linkOffered && versionCmp version hubLinkSeqVersion != .lt))

/-- A header. A start time in the future is not kept. -/
def headerLine (now : Int) (link : Option FrameLink) (mh : Option Nat) (w : RosterWalk)
    (body : Str) :
    RosterWalk :=
  let f := splitFields body 4
  -- a header names a hub, at least by its name
  if f.length < 2 then w
  else
    let started := ((f[2]?).map atoll).getD 0
    let version := ((f[3]?).map fun v => rosterClean v (rosterVersionMax + 1)).getD []
    let w := { w with hubUuid := rosterClean (f.headD []) 64,
                      hubName := rosterClean ((f[1]?).getD []) 64 }
    if w.hubUuid.isEmpty then w
    else
      -- a start of zero or in the future is not kept
      let sane := decide (0 < started) && decide (started ≤ now)
      let w := w.modifyHub mh fun h =>
        { h with name := w.hubName, version := version,
                 started := if sane then started else h.started, reportedAt := now }
      -- the peer of that uuid, if it is one, is told as well
      let s := modifyPeer w.state w.hubUuid fun p =>
        { p with remoteStarted := if sane then started else p.remoteStarted,
                 remoteVersion := version }
      { w with state := s, refused := headerRefused link w.hubUuid version }

/-- The code base of the hub the last header named. -/
def variantLine (mh : Option Nat) (w : RosterWalk) (v : Str) : RosterWalk :=
  if w.hubUuid.isEmpty || w.hubUuid == ['-'] then w
  else
    let hv := rosterClean v (rosterVariantMax + 1)
    let w := w.modifyHub mh fun h => { h with variant := hv }
    { w with state := modifyPeer w.state w.hubUuid fun p => { p with remoteVariant := hv } }

/-- A link of the origin, on the first chunk only. The first one replaces the list. -/
def linkLine (mh : Option Nat) (firstChunk : Bool) (w : RosterWalk) (body : Str) : RosterWalk :=
  match mh.bind (w.state.meshHubs[·]?) with
  | none => w
  | some h =>
    -- links come on the first chunk, and about the origin only
    if !firstChunk || h.uuid ≠ w.hubUuid then w
    else
      -- the first link of a frame replaces the list
      let fresh := w.linksReset
      let w := (w.modifyHub mh fun h =>
        if fresh then h else { h with links := [], haveLinks := true })
      let w := { w with linksReset := true }
      match body.splitOn '|' with
      | uuid :: name :: online :: _ =>
        let uuid := rosterClean uuid 64
        if uuid.isEmpty then w
        else
          w.modifyHub mh fun h =>
            if h.links.length ≥ maxPeers then h
            else { h with links := h.links
                          ++ [⟨uuid, rosterClean name 64, online.head? == some '1'⟩] }
      | _ => w

/-- A field, empty for a dash. -/
def dashField (f : Str) (cap : Nat) : Str := if f == ['-'] then [] else rosterClean f cap

/-- A bot of the hub the last header named. Our own bots are nobody's to report. -/
def botLine (now : Int) (w : RosterWalk) (body : Str) : RosterWalk :=
  -- a bot line without a header is nobody's
  if w.hubUuid.isEmpty || w.hubUuid == ['-'] then w
  else if !w.state.hubUuid.isEmpty && w.hubUuid == w.state.hubUuid then w
  else
    let f := splitFields body 8
    match f with
    | bot :: nick :: version :: server :: started :: _ =>
      let botUuid := rosterClean bot 64
      if bot.isEmpty || botUuid.isEmpty then w
      else
        -- times that are not past are not kept
        let past := fun t : Int => if 0 < t ∧ t ≤ now then t else 0
        let ip := (f[7]?).getD []
        { w with state := rosterUpsert w.state {
            hubUuid := w.hubUuid
            hubName := if w.hubName.isEmpty then w.hubUuid else w.hubName
            botUuid := botUuid
            nick := dashField nick maxNick
            version := dashField version (rosterVersionMax + 1)
            variant := ((f[5]?).map fun v => dashField v (rosterVariantMax + 1)).getD []
            server := dashField server (rosterServerMax + 1)
            connectedAt := past (atoll started)
            linkSince := past (((f[6]?).map atoll).getD 0)
            -- an address is digits and letters of one, or nothing
            ip := if ip != ['-'] && !ip.isEmpty && utf8Len ip ≤ rosterIpMax
                && ip.all (fun c => isHexDigit c || c == ':' || c == '.') then ip else []
            reportedAt := now } }
    | _ => w

/-- One line of a frame. -/
def rosterLine (now : Int) (link : Option FrameLink) (mh : Option Nat) (firstChunk : Bool)
    (w : RosterWalk) (line : Str) : RosterWalk :=
  if w.refused then w
  else
    match line with
    | 'h' :: '|' :: body => headerLine now link mh w body
    | 'v' :: '|' :: v => variantLine mh w v
    | 'l' :: '|' :: body => linkLine mh firstChunk w body
    | 'b' :: '|' :: body => botLine now w body
    | _ => w

/-- What became of a frame: applied or not, the link refused, the frame passed on. -/
structure FrameFate where
  applied : Bool := false
  refused : Bool := false
  relayed : Option Str := none
  deriving Repr, DecidableEq

/-- The frame for the next hop, when it goes on. -/
def relayFrame (payload : Str) (mh : Option Nat) (control : Option RelayControl) : Option Str :=
  match control, mh with
  | some g, some _ =>
    -- the last hop does not pass it on
    if g.ttl > 1 ∧ g.ttl ≤ rosterRelayHops then
      let r := rosterFrameRettl payload g (g.ttl - 1)
      if utf8Len r ≤ rosterFrameBudget + 64 then some r else none
    else none
  | _, _ => none

/-- The map after the window was asked about a frame, and whether the frame is news. A frame
without a relay control, or of an origin without a place in the map, is news every time. -/
def takeFrame (s : Presence) (mh : Option Nat) (p : FramePeek) : Presence × Bool :=
  match p.control, mh.bind (fun mi => (s.meshHubs[mi]?).map (mi, ·)) with
  | some g, some (mi, h) =>
    let r := h.window p.started g.round g.chunk
    ({ s with meshHubs := s.meshHubs.set mi r.1 }, r.2)
  | _, _ => (s, true)

/-- A hub told us which bots are on it: a peer about itself, or any hub further out. -/
def processBotRoster (now : Int) (link : Option FrameLink) (s : Presence) (payload : Str) :
    Presence × FrameFate :=
  let p := rosterFramePeek payload
  -- a frame without an origin, and our own coming back
  if p.origin.isEmpty || p.origin == ['-'] then (s, {})
  else if !s.hubUuid.isEmpty && p.origin == s.hubUuid then (s, {})
  else
    let r := meshHubGet s p.origin
    let (s, news) := takeFrame r.1 r.2 p
    -- seen before
    if !news then (s, {})
    else
      let first := p.control.any fun g => g.chunk == 0
      let w := (payload.splitOn '\n').foldl (rosterLine now link r.2 first) { state := s }
      -- the header refused the link: what was read before it stays
      if w.refused then (w.state, { applied := true, refused := true })
      else (w.state, { applied := true, relayed := relayFrame payload r.2 p.control })

end IrcHub.Hub
