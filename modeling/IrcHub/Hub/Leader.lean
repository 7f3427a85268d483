import IrcHub.Hub.Link

/-!
# `IrcHub.Hub.Leader`: which hub runs the scheduled purge

Which hub runs the scheduled purge, from `mesh.rs`. Once a day each hub asks itself whether it is
the one that purges. It compares its uuid with what each of its links is named, which the
handshakes in `client.rs` and `main.rs` set.

- `dialedId`, `acceptedId`: the name of a link, on the side that dialed and on the side that
  accepted
- `shouldInitiateScheduledPurge`: the question
- `PurgeMesh`: the hubs and the links between them, each with the names it was made under
- `PurgeMesh.leads`: what a hub of the mesh answers

A link can be named by the uuid of the hub at its other end, by a friendly name that was
configured or learned, or by a name that stands for a hub nobody named. Which of these it is
depends on what each side knew when the link was made, so the names are data of the mesh.

Left out: the handshake itself, which only says whether a link comes up.
-/

set_option autoImplicit false

namespace IrcHub.Hub

open Str
open String (utf8Len)

/-- A name a hub may have. -/
def nameValid (name : Str) : Bool :=
  !name.isEmpty && decide (utf8Len name ≤ 63)
    && name.all fun c =>
      (decide (c.toNat < 128) && c.isAlphanum) || c == '.' || c == '_' || c == '-'

/-- The name of a link nobody named. -/
def hubPeer : Str := "HUB-PEER".toList

/-- The name of a link on the side that dialed: the friendly name of the peer as it is known. -/
def dialedId (friendly : Str) : Str := trunc (if friendly.isEmpty then hubPeer else friendly) 64

/-- The friendly name of a peer once its hello was accepted. The first valid name is kept. -/
def learnedName (friendly peerName : Str) : Str :=
  if friendly.isEmpty && nameValid peerName then peerName else friendly

/-- The name of a link on the side that accepted. -/
def acceptedId (friendly peerName : Str) : Str :=
  let friendly := learnedName friendly peerName
  trunc (if !friendly.isEmpty then friendly else if nameValid peerName then peerName
    else hubPeer) 64

/-- A connection of a hub. -/
structure LeaderClient where
  typ : ClientType
  authenticated : Bool
  id : Str
  deriving Repr, DecidableEq

/-- Whether a hub with these connections runs the scheduled purge. -/
def shouldInitiateScheduledPurge (hubUuid : Str) (clients : List LeaderClient) : Bool :=
  !clients.any fun c => decide (c.typ = .hub) && c.authenticated && decide (c.id < hubUuid)

/-! ### The mesh -/

/-- A peer link that is up, and what its two ends knew of each other when it was made. -/
structure PeerLink where
  dialer : Str
  acceptor : Str
  /-- The name the dialer had for the acceptor. -/
  dialerKnows : Str := []
  /-- The name the acceptor had for the dialer. -/
  acceptorKnows : Str := []
  /-- The name in the hello. -/
  helloName : Str := []
  deriving Repr, DecidableEq

/-- The hubs by their uuid, the links between them, and the other connections of each hub. -/
structure PurgeMesh where
  hubs : List Str
  links : List PeerLink
  others : Str → List LeaderClient

/-- The ends of a link at a hub. -/
def linkEnds (l : PeerLink) (hub : Str) : List LeaderClient :=
  (if l.dialer = hub then [⟨.hub, true, dialedId l.dialerKnows⟩] else [])
    ++ if l.acceptor = hub then [⟨.hub, true, acceptedId l.acceptorKnows l.helloName⟩] else []

/-- The connections of a hub. -/
def PurgeMesh.clients (m : PurgeMesh) (hub : Str) : List LeaderClient :=
  m.others hub ++ m.links.flatMap (linkEnds · hub)

/-- What a hub of the mesh answers. -/
def PurgeMesh.leads (m : PurgeMesh) (hub : Str) : Bool :=
  shouldInitiateScheduledPurge hub (m.clients hub)

end IrcHub.Hub
