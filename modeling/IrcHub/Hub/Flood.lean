import IrcHub.Hub.Upgrade
import IrcHub.Hub.Cstr

/-!
# `IrcHub.Hub.Flood`: a record on its way through the mesh

How a record spreads through the mesh (`mesh.rs`, `queue.rs`). A hub that changes a record sends
it to every peer, and a hub that accepts one passes it on. A forward of a broadcast leaves out the
peers the sender reports links to: it sent them the record itself.

- `FloodHub`: what a hub reads of its links, its peers and the mesh map, and the record it holds
- `splitHorizonOf`: whom a flood leaves out, for every kind of flood
- `FloodHub.splitHorizonLinks`, `syncBcastOpcode`, `peerVersionLevel`, `syncSendToPeers`: who gets
  a copy, and as which frame
- `FloodMesh`: hubs and the frames on the links between them
- `announce`, `deliver`, `floodRun` and `floodAt`: a record is announced, and frames arrive one
  after the other

The report of links may be old. It is used only while it is fresh, and a link that was reported
and has gone since is what the skip can go wrong by. That is a condition on the mesh in the
results about this model, and no part of it.

A record is whatever the hubs compare when one arrives: `accepts now incoming held` is the rule of
its kind. Links are first in, first out. Left out: lanes, coalescing and budgets of the queues,
and the traces.
-/

set_option autoImplicit false

namespace IrcHub.Hub

open Str
open String (utf8Len)

abbrev syncSplitHorizonFresh : Int := 130

/-- A connection. -/
structure FloodClient where
  fd : Int
  typ : ClientType
  authenticated : Bool
  deriving Repr, DecidableEq

/-- A configured peer. -/
structure FloodPeer where
  uuid : Str
  connected : Bool
  fd : Int
  remoteVersion : Str := []
  deriving Repr, DecidableEq

/-- What a hub of the mesh last said of itself: its links, and whether they are up. -/
structure LinkReport where
  uuid : Str
  version : Str := []
  /-- It has sent its links. -/
  haveLinks : Bool
  reportedAt : Int
  links : List (Str × Bool)
  deriving Repr, DecidableEq

/-- A hub, with what it holds of the record. -/
structure FloodHub (ρ : Type) where
  clients : List FloodClient
  peers : List FloodPeer
  meshHubs : List LinkReport
  held : ρ

variable {ρ : Type}

/-- The links to peers. -/
def FloodHub.peerClients (h : FloodHub ρ) : List FloodClient :=
  h.clients.filter fun c => decide (c.typ = .hub) && c.authenticated

/-- The uuid of the peer on a connection, empty when it is not known. -/
def FloodHub.peerUuidOf (h : FloodHub ρ) (fd : Int) : Str :=
  ((h.peers.find? fun p => p.connected && decide (p.fd = fd)).map (·.uuid)).getD []

/-- The hubs the sender of a flood is linked to: of the links the one the flood came over, then
the uuid of the hub at its other end, then what that hub reports. None when one of the three is
not known. -/
def splitHorizonOf {γ : Type} (links : List γ) (sent : γ → Bool) (uuidOf : γ → Str)
    (linksOf : Str → Option (List Str)) : Option (List Str) :=
  (((links.find? sent).map uuidOf).filter fun u => !u.isEmpty).bind linksOf

/-- The hubs a hub is linked to by its last report, when that is fresh enough to be trusted. -/
def FloodHub.linkReport (h : FloodHub ρ) (now : Int) (u : Str) : Option (List Str) :=
  let fresh := h.meshHubs.find? fun r =>
    r.uuid == u && r.haveLinks && decide (now - r.reportedAt ≤ syncSplitHorizonFresh)
  fresh.map fun r => (r.links.filter (·.2)).map (·.1)

/-- The peers the peer on a connection is linked to, when its report can be trusted. -/
def FloodHub.splitHorizonLinks (h : FloodHub ρ) (now fromFd : Int) : Option (List Str) :=
  splitHorizonOf h.peerClients (fun c => decide (c.fd = fromFd)) (fun c => h.peerUuidOf c.fd)
    (h.linkReport now)

/-- A peer knows the broadcast frame. -/
def syncBcastOpcode (h : FloodHub ρ) (fd : Int) : Bool :=
  let cu := h.peerUuidOf fd
  !cu.isEmpty && h.meshHubs.any fun r => r.uuid == cu && r.haveLinks

/-- How current a peer is: 2 for a version that is served, 1 for an older one, 0 not known yet. -/
def peerVersionLevel (h : FloodHub ρ) (fd : Int) : Nat :=
  let cu := h.peerUuidOf fd
  if cu.isEmpty then 0
  else
    let ver := ((h.peers.find? fun p => p.uuid == cu).map (·.remoteVersion)).getD []
    let ver := if ver.isEmpty
      then ((h.meshHubs.find? fun r => r.uuid == cu).map (·.version)).getD []
      else ver
    if ver.isEmpty then 0
    else if versionCmp ver meshMinVersion != .lt then 2
    else 1

/-- The peers a payload goes to, each with whether it goes as a broadcast. A peer whose version is
not known, or too old, gets none. -/
def syncSendToPeers (now : Int) (h : FloodHub ρ) (payload : Str) (excludeFd : Int)
    (split : Bool) :
    List (Str × Bool) :=
  if maxSyncPayload - 10 < utf8Len payload then []
  else
    let senderLinks := if split then h.splitHorizonLinks now excludeFd else none
    (h.peerClients.filter fun c =>
      decide (c.fd ≠ excludeFd)
        && !senderLinks.any (fun links =>
          !(h.peerUuidOf c.fd).isEmpty && links.contains (h.peerUuidOf c.fd))
        && decide (peerVersionLevel h c.fd = 2)).map fun c =>
          (h.peerUuidOf c.fd, syncBcastOpcode h c.fd)

/-! ### The mesh -/

/-- The hubs by their uuid and the frames between them, the oldest first: whether each is a
broadcast. Also how many frames a link carried, and how many of them arrived. -/
structure FloodMesh (ρ : Type) where
  hub : Str → FloodHub ρ
  wire : Str → Str → List Bool
  sent : Str → Str → Nat
  arrived : Str → Str → Nat

/-- Frames of a hub are put on its links. -/
def FloodMesh.post (m : FloodMesh ρ) (x : Str) (out : List (Str × Bool)) : FloodMesh ρ :=
  { m with
    wire := fun a b => if a = x then m.wire a b ++ (out.filter (·.1 == b)).map (·.2)
      else m.wire a b
    sent := fun a b => if a = x then m.sent a b + (out.filter (·.1 == b)).length else m.sent a b }

/-- A hub holds the record. -/
def FloodMesh.store (m : FloodMesh ρ) (x : Str) (r : ρ) : FloodMesh ρ :=
  { m with hub := fun a => if a = x then { m.hub x with held := r } else m.hub a }

/-- The oldest frame of a link arrives. -/
def FloodMesh.pop (m : FloodMesh ρ) (x y : Str) : FloodMesh ρ :=
  { m with
    wire := fun a b => if a = x ∧ b = y then (m.wire a b).tail else m.wire a b
    arrived := fun a b => if a = x ∧ b = y then m.arrived a b + 1 else m.arrived a b }

/-- A hub changes its record and tells every peer. -/
def announce (now : Int) (r : ρ) (payload : Str) (m : FloodMesh ρ) (x : Str) : FloodMesh ρ :=
  let m := m.store x r
  m.post x (syncSendToPeers now (m.hub x) payload (-1) false)

/-- A hub reads a frame of a peer: a record it accepts is passed on. Frames of a peer that is not
known current are dropped. -/
def processFrame (accepts : Int → ρ → ρ → Bool) (now : Int) (r : ρ) (payload : Str)
    (m : FloodMesh ρ) (x y : Str) (bcast : Bool) : FloodMesh ρ :=
  match (m.hub y).peerClients.find? fun c => (m.hub y).peerUuidOf c.fd == x with
  | none => m
  | some c =>
    if peerVersionLevel (m.hub y) c.fd ≠ 2 then m
    else if accepts now r (m.hub y).held then
      let m := m.store y r
      m.post y (syncSendToPeers now (m.hub y) payload c.fd bcast)
    else m

/-- A frame that arrives: at what time, and on which link. -/
structure Arrival where
  now : Int
  sender : Str
  receiver : Str

/-- The oldest frame of a link is read, if there is one. -/
def deliver (accepts : Int → ρ → ρ → Bool) (r : ρ) (payload : Str) (m : FloodMesh ρ)
    (e : Arrival) :
    FloodMesh ρ :=
  match m.wire e.sender e.receiver with
  | [] => m
  | bcast :: _ =>
    processFrame accepts e.now r payload (m.pop e.sender e.receiver) e.sender e.receiver bcast

/-- Frames arrive in some order. -/
def floodRun (accepts : Int → ρ → ρ → Bool) (r : ρ) (payload : Str) (m : FloodMesh ρ)
    (es : List Arrival) : FloodMesh ρ :=
  es.foldl (deliver accepts r payload) m

/-- The mesh after the first `n` arrivals of a schedule that does not end. An arrival on a link
where no frame waits stands for a moment in which nothing happens. -/
def floodAt (accepts : Int → ρ → ρ → Bool) (r : ρ) (payload : Str) (m : FloodMesh ρ)
    (es : Nat → Arrival) (n : Nat) : FloodMesh ρ :=
  floodRun accepts r payload m ((List.range n).map es)

end IrcHub.Hub
