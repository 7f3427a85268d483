import IrcHub.Hub.Cstr
import IrcHub.Hub.Link
import IrcHub.Hub.RateLimit
import IrcHub.Lib.Table

/-!
# `IrcHub.Hub.PeerLink`: which of two links stays

Which of two links stays (`client.rs`, `main.rs`). Two hubs know each other as peers, and each
dials the other whenever it holds the peer to be down. So there can be several connections between
them, and each hub decides alone which one is the link.

- `LinkHub`: what a hub keeps of its peer and of its connections; `checkPeers`, `finishDial`,
  `handleHubv3` (with `peerLinkTie`) and `disconnectClient` are its steps
- `LinkMesh`: two hubs and their connections, each a pair of reliable queues of frames
  (`LinkFrame`)
- `DialEvent`, `LinkMesh.step`: what can happen between the two, in any order
- `LinkMesh.Quiet`: nothing is on the way, and no dial is being made

When a hub that has a link reads the hello of a second connection, `peerLinkTie` decides. The new
one replaces a link the peer dialled too; of one dialled each way the one of the lower uuid stays.
The other hub reads the end of the connection that goes, and does not compare anything itself.

A connection has one number for both hubs, in the place of its descriptors: open connections have
different ones. Only the frames of the handshake are looked at, and whether a hello is one of the
peer (key, signature, clock, replay) is an input of the event, as is how a connect ends.
-/

set_option autoImplicit false

namespace IrcHub.Hub

/-! ### One hub -/

/-- A connection of a hub. -/
structure PeerConn where
  fd : Nat
  typ : ClientType := .bot
  inbound : Bool := false
  authenticated : Bool := false
  dialing : Bool := false
  dialUuid : Str := []
  superseded : Bool := false
  deriving Repr, DecidableEq

/-- The peer, as configured, and its link. `fd` is the connection of the link. -/
structure LinkPeer where
  uuid : Str
  connected : Bool := false
  fd : Option Nat := none
  deriving Repr, DecidableEq

structure LinkHub where
  hubUuid : Str
  peer : LinkPeer
  clients : List PeerConn := []
  deriving Repr, DecidableEq

/-- Position of the connection of a number. -/
def LinkHub.clientByFd (h : LinkHub) (fd : Nat) : Option Nat :=
  h.clients.findIdx? fun c => c.fd == fd

/-- Close a connection. A peer linked over it is down. -/
def LinkHub.disconnectClient (h : LinkHub) (ci : Nat) : LinkHub :=
  match h.clients[ci]? with
  | none => h
  | some c =>
    { h with
      -- the peer is down if this was its link
      peer := if h.peer.fd = some c.fd then { h.peer with connected := false, fd := none }
        else h.peer
      clients := Table.swapRemove h.clients ci }

/-- Dial the peer over a new connection, if it is down and not being dialled. -/
def LinkHub.checkPeers (h : LinkHub) (fd : Nat) : Option LinkHub :=
  -- one link, and one dial at a time
  if h.peer.connected || h.clients.any (fun c => c.dialing && c.dialUuid == h.peer.uuid) then none
  else if h.clients.length ≥ maxClients then none
  else some { h with
    clients := h.clients ++ [{ fd := fd, typ := .hub, dialing := true, dialUuid := h.peer.uuid }]
      }

/-- A connection of the listener. -/
def LinkHub.acceptOne (h : LinkHub) (fd : Nat) : Option LinkHub :=
  if h.clients.length ≥ maxClients then none
  else some { h with clients := h.clients ++ [{ fd := fd, inbound := true }] }

/-- The connect of connection `ci` ended: `up` says it is there, `sent` that the hello could be
written. A dial of a peer that linked meanwhile is not needed. Also whether the hello went out. -/
def LinkHub.finishDial (h : LinkHub) (ci : Nat) (up sent : Bool) : LinkHub × Bool :=
  match h.clients[ci]? with
  | none => (h, false)
  | some c =>
    let h := { h with clients := h.clients.modify ci fun c => { c with dialing := false } }
    -- linked meanwhile, or another peer: the connection is closed
    if c.dialUuid != h.peer.uuid || h.peer.connected then (h.disconnectClient ci, false)
    else if !up then (h.disconnectClient ci, false)
    else
      -- the link stands before the hello is written, and goes with it
      let h := { h with peer := { h.peer with connected := true, fd := some c.fd } }
      if !sent then (h.disconnectClient ci, false)
      else ({ h with clients := h.clients.modify ci fun c => { c with authenticated := true } },
        true)

/-- The peer has a link when connection `ci`, which it dialled, says hello. The new one replaces a
link the peer dialled too; of one dialled each way the one of the lower uuid stays. The old one is
shut down: its place in the table. -/
def LinkHub.peerLinkTie (h : LinkHub) (ci : Nat) : Bool × Option Nat :=
  let old := if h.peer.connected then
      (h.clients.zipIdx.find? fun p =>
        p.2 != ci && p.1.typ = .hub && h.peer.fd == some p.1.fd)
    else none
  -- no link yet
  match old with
  | none => (true, none)
  | some (o, oi) =>
    -- a link the peer dialled is old; of two dialled each way the hub of the lower uuid decides
    if o.inbound || decide (h.peer.uuid < h.hubUuid) then (true, some oi) else (false, none)

/-- The hello of the peer on connection `ci`. Also the connection that is shut down. -/
def LinkHub.handleHubv3 (h : LinkHub) (ci : Nat) (valid : Bool) : LinkHub × Option Nat :=
  match h.clients[ci]? with
  | none => (h, none)
  | some c =>
    -- what was sent is no hello of the peer
    if !valid then (h.disconnectClient ci, none)
    else
      -- the old link may have to go
      let (stays, old) := h.peerLinkTie ci
      let down := old.bind fun oi => (h.clients[oi]?).map (·.fd)
      let h := match old with
        | some oi =>
            { h with clients := h.clients.modify oi fun o => { o with superseded := true } }
        | none => h
      -- the connection that says hello is the one that goes
      if !stays then (h.disconnectClient ci, down)
      else
        ({ h with
            clients := h.clients.modify ci fun c => { c with typ := .hub, authenticated := true }
            peer := { h.peer with connected := true, fd := some c.fd } }, down)

/-! ### Two hubs -/

/-- What an end sends of itself: the hello of a dialler, and the end of the stream. -/
inductive LinkFrame
  | hello | eof
  deriving Repr, DecidableEq

/-- A connection: who dialled it, whether the other hub accepted it, and what is on the way to
each hub. -/
structure PeerWire where
  dialer : Bool
  accepted : Bool := false
  toward : Bool → List LinkFrame

/-- Put a frame on its way to hub `i`. -/
def PeerWire.put (w : PeerWire) (i : Bool) (f : LinkFrame) : PeerWire :=
  { w with toward := Function.update w.toward i (w.toward i ++ [f]) }

/-- The next frame on the way to hub `i` is taken. -/
def PeerWire.pop (w : PeerWire) (i : Bool) : PeerWire :=
  { w with toward := Function.update w.toward i (w.toward i).tail }

/-- Two hubs, told apart by a `Bool`, and every connection there was. -/
structure LinkMesh where
  hub : Bool → LinkHub
  wires : List PeerWire := []

/-- Two hubs that have each other configured, and no connection yet. -/
def LinkMesh.start (uuid : Bool → Str) : LinkMesh where
  hub i := { hubUuid := uuid i, peer := { uuid := uuid (!i) } }

/-- Nothing is on the way, and no dial is being made. -/
def LinkMesh.Quiet (m : LinkMesh) : Prop :=
  (∀ w ∈ m.wires, ∀ i, w.toward i = []) ∧ ∀ i, ∀ c ∈ (m.hub i).clients, c.dialing = false

instance (m : LinkMesh) : Decidable m.Quiet := inferInstanceAs (Decidable (_ ∧ _))

/-- Replace one hub. -/
def LinkMesh.setHub (m : LinkMesh) (i : Bool) (h : LinkHub) : LinkMesh :=
  { m with hub := Function.update m.hub i h }

/-- Put a frame on its way to hub `i`. -/
def LinkMesh.send (m : LinkMesh) (fd : Nat) (i : Bool) (f : LinkFrame) : LinkMesh :=
  { m with wires := m.wires.modify fd fun w => w.put i f }

/-- Hub `i` takes the next frame on a connection. -/
def LinkMesh.take (m : LinkMesh) (fd : Nat) (i : Bool) : LinkMesh :=
  { m with wires := m.wires.modify fd fun w => w.pop i }

/-- Hub `i` closes its connection `ci`, and the other end will read the end of the stream. -/
def LinkMesh.close (m : LinkMesh) (i : Bool) (ci : Nat) : LinkMesh :=
  match (m.hub i).clients[ci]? with
  | none => m
  | some c => (m.setHub i ((m.hub i).disconnectClient ci)).send c.fd (!i) .eof

/-- What can happen between two hubs. -/
inductive DialEvent
  /-- Hub `i` looks for a peer to dial. -/
  | dial (i : Bool)
  /-- The listener of hub `i` takes connection `fd`. -/
  | accept (i : Bool) (fd : Nat)
  /-- The connect of connection `fd` ended at hub `i`. -/
  | finish (i : Bool) (fd : Nat) (up sent : Bool)
  /-- Hub `i` reads the next frame on connection `fd`. -/
  | read (i : Bool) (fd : Nat) (valid : Bool)
  /-- Hub `i` closes connection `fd` for a reason of its own. -/
  | close (i : Bool) (fd : Nat)

/-- The next frame of a connection is read: a hello by a hub that did not have one, and an end.
What comes for a connection the hub does not have any more is lost. -/
def LinkMesh.read (m : LinkMesh) (i : Bool) (fd : Nat) (valid : Bool) : LinkMesh :=
  match m.wires[fd]? with
  | none => m
  | some w =>
    match (w.toward i).head?, (m.hub i).clientByFd fd with
    | none, _ => m
    | some _, none => if w.dialer = i || w.accepted then m.take fd i else m
    | some f, some ci =>
      match (m.hub i).clients[ci]? with
      | none => m
      | some c =>
        -- a dial that is not through is not read
        if c.dialing then m
        else
          match f with
          | .eof => (m.take fd i).close i ci
          | .hello =>
            if c.authenticated then m.take fd i
            else
              let (h, down) := (m.hub i).handleHubv3 ci valid
              let m := (m.take fd i).setHub i h
              -- a refused connection is closed, one that lost its place is shut down
              let m := match down with
                | some old => m.send old (!i) .eof
                | none => m
              if (h.clientByFd fd).isNone then m.send fd (!i) .eof else m

/-- One event. -/
def LinkMesh.step (m : LinkMesh) : DialEvent → LinkMesh
  | .dial i =>
    match (m.hub i).checkPeers m.wires.length with
    | none => m
    | some h => { m.setHub i h with wires := m.wires ++ [{ dialer := i, toward := fun _ => [] }] }
  | .accept i fd =>
    match m.wires[fd]? with
    | none => m
    | some w =>
      -- a hub does not accept its own dial, nor a connection twice
      if w.dialer = i || w.accepted then m
      else
        let m := { m with wires := m.wires.modify fd fun w => { w with accepted := true } }
        match (m.hub i).acceptOne fd with
        | none => m.send fd (!i) .eof
        | some h => m.setHub i h
  | .finish i fd up sent =>
    match (m.hub i).clientByFd fd with
    | none => m
    | some ci =>
      if !((m.hub i).clients[ci]?.any (·.dialing)) then m
      else
        let (h, hello) := (m.hub i).finishDial ci up sent
        (m.setHub i h).send fd (!i) (if hello then .hello else .eof)
  | .read i fd valid => m.read i fd valid
  | .close i fd =>
    match (m.hub i).clientByFd fd with
    | none => m
    | some ci => m.close i ci

/-- A run. -/
def LinkMesh.run (m : LinkMesh) (es : List DialEvent) : LinkMesh := es.foldl LinkMesh.step m

end IrcHub.Hub
