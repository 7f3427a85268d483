import IrcHub.Hub.Flood
import IrcHub.Hub.Follow

/-!
# `IrcHub.Hub.OpFlow`: op requests between bots on different hubs

How a bot is opped by a bot on another hub, from `opflow.rs`. Its hub hands the request to the
target when the target is connected here. Otherwise it records the request under an id, and sends
it to the hub the roster places the target on when that hub is a peer, else to every peer. A hub
that gets the request has its bot grant it and tells the peer the request came from, or passes the
request on. An answer takes one hop: the hub that recorded the request under the id clears the
record, any other drops the answer.

- `OpHub`: what op requests read and write of a hub; `processOpRequest`,
  `processForwardOpRequest`, `processForwardOpGrant` and `processForwardOpFailed` are its steps
- `PendingOpRequest`: one slot of the table of requests that wait. A slot is given by a descriptor
  and an id, and it is given away again after a time
- `OpMesh`: a mesh of such hubs with the frames on their links, in the order they were sent
- `opArrive`, `openConnection`, `supersedeBotSessions`: what happens between the hubs

The mesh also keeps a history that no hub reads: which connection made each request, which
connections were told that one failed, and the requests whose descriptor a bot's connection was
opened on while they waited. Each frame on a link has the clocks of its two hubs as it was sent.

A bot whose urgent lane is full gets nothing: `sendCmdToBot` says so, and a hub that cannot hand a
grant to the target answers the peer neither way.

Left out: a peer link whose send queue is full, which the code closes right after (a `linkDown`
after the step here), and the log.
-/

set_option autoImplicit false

namespace IrcHub.Hub

open Str
open String (utf8Len)

abbrev maxPendingOpRequests : Nat := 500
abbrev opForwardTtlSeconds : Int := 60

/-! ### One hub -/

inductive OpClientType
  | bot | hub | admin
  deriving Repr, DecidableEq

/-- One connection. The id of a bot is its uuid, that of a hub link the uuid of the peer. -/
structure OpClient where
  fd : Nat
  connSerial : Nat
  typ : OpClientType
  authenticated : Bool := true
  superseded : Bool := false
  /-- The urgent lane of the connection takes nothing more. -/
  laneFull : Bool := false
  id : Str
  deriving Repr, DecidableEq

/-- One slot of the table of requests that wait for an answer. -/
structure PendingOpRequest where
  requestId : Str := []
  requesterUuid : Str := []
  targetUuid : Str := []
  channel : Str := []
  originFd : Nat := 0
  timestamp : Int := 0
  active : Bool := false
  deriving Repr, DecidableEq

/-- What op requests read and write of a hub. -/
structure OpHub where
  clients : List OpClient := []
  /-- The serial of the next connection. None is given twice. -/
  nextConnSerial : Nat := 1
  pendingOpRequests : List PendingOpRequest := List.replicate maxPendingOpRequests {}
  /-- The last ids taken, the newest first. -/
  seenForwards : List Str := []
  /-- Bots and the hubs they are on, as gossip has it. -/
  roster : List (Str × Str) := []
  /-- The stored hostmask of a bot, empty without one. -/
  hostmask : Str → Str := fun _ => []
  /-- The peers a peer is linked to, when its report is fresh. -/
  linkReport : Str → Option (List Str) := fun _ => none

def clientByFd (h : OpHub) (fd : Nat) : Option OpClient := h.clients.find? fun c =>
  decide (c.fd = fd)

/-- A live session of the bot with this uuid. -/
def OpClient.isBot (uuid : Str) (c : OpClient) : Bool :=
  decide (c.typ = .bot) && c.authenticated && !c.superseded && decide (c.id = uuid)

/-- The bot with this uuid. -/
def botClient (h : OpHub) (uuid : Str) : Option OpClient := h.clients.find? (OpClient.isBot uuid)

/-- The peer hubs. -/
def peerClients (h : OpHub) : List OpClient :=
  h.clients.filter fun c => decide (c.typ = .hub) && c.authenticated

/-- The link to a peer. -/
def peerClient (h : OpHub) (uuid : Str) : Option OpClient :=
  (peerClients h).find? fun c => decide (c.id = uuid)

/-- Frames between hubs. -/
inductive OpFrame
  | request (payload : Str)
  | grant (payload : Str)
  | failed (payload : Str)
  deriving Repr, DecidableEq

inductive OpCmd
  | grant | failed
  deriving Repr, DecidableEq

/-- What a hub sends: a frame to a peer, a command to the bot on a connection. -/
inductive OpOut
  | peer (uuid : Str) (frame : OpFrame)
  | bot (serial : Nat) (cmd : OpCmd) (payload : Str)
  deriving Repr, DecidableEq

/-- A command for a bot, and whether its urgent lane took it. -/
def sendCmdToBot (c : OpClient) (cmd : OpCmd) (payload : Str) : List OpOut × Bool :=
  if c.laneFull then ([], false) else ([.bot c.connSerial cmd payload], true)

/-! ### Ids and slots -/

def opSeen (h : OpHub) (id : Str) : Bool := !id.isEmpty && h.seenForwards.contains id

def opSeenAdd (h : OpHub) (id : Str) : OpHub :=
  { h with seenForwards := (trunc id 64 :: h.seenForwards).take maxSeenForwardIds }

/-- A free slot takes the request; `none` when there is none. -/
def addPendingOpRequest (h : OpHub) (id requester target channel : Str) (originFd : Nat)
    (now : Int) :
    Option OpHub :=
  let slot : PendingOpRequest :=
    { requestId := trunc id 64, requesterUuid := trunc requester 64,
      targetUuid := trunc target 64,
      channel := trunc channel maxChan, originFd, timestamp := now, active := true }
  (h.pendingOpRequests.findIdx? fun p => !p.active).map fun i =>
    { h with pendingOpRequests := h.pendingOpRequests.set i slot }

def findPendingOpRequest (h : OpHub) (id : Str) : Option Nat :=
  h.pendingOpRequests.findIdx? fun p => p.active && decide (p.requestId = id)

/-- The slot of the request is free again. -/
def removePendingOpRequest (h : OpHub) (id : Str) : OpHub :=
  match findPendingOpRequest h id with
  | some i => { h with
      pendingOpRequests := h.pendingOpRequests.modify i fun p => { p with active := false } }
  | none => h

/-! ### The way to the target -/

/-- The hub the roster places a bot on, when it names one only. -/
def opHome (h : OpHub) (target : Str) : Option Str :=
  match (h.roster.filter fun r => decide (r.1 = target)).map (·.2) with
  | [] => none
  | home :: rest => if rest.all fun r => decide (r = home) then some home else none

/-- The link to the hub of the target, never the one the request came over. -/
def opRoutePeer (h : OpHub) (target : Str) (exclude : Option Nat) : Option OpClient :=
  match opHome h target with
  | none => none
  | some home => (peerClients h).find? fun c => decide (some c.fd ≠ exclude)
      && decide (c.id = home)

/-- The peers a flood skips: those the sender is linked to, when it flooded too. -/
def splitHorizonLinks (h : OpHub) (exclude : Option Nat) (split : Bool) : List Str :=
  if split then
    (splitHorizonOf (peerClients h) (fun c => decide (some c.fd = exclude)) (·.id)
      h.linkReport).getD []
  else []

/-- The peers a request goes to, and whether it was routed. -/
def opPeers (h : OpHub) (target : Str) (exclude : Option Nat) (split : Bool) :
    List OpClient × Bool :=
  match if target = "ANY".toList then none else opRoutePeer h target exclude with
  | some c => ([c], true)
  | none =>
    ((peerClients h).filter fun c => decide (some c.fd ≠ exclude) &&
      !(!c.id.isEmpty && (splitHorizonLinks h exclude split).contains c.id), false)

/-- A request on the wire. -/
def opForwardText (id requester target channel hostmask : Str) (ts : Int) (routed : Bool) : Str :=
  trunc (id ++ '|' :: requester ++ '|' :: target ++ '|' :: channel ++ '|' :: hostmask ++ '|' ::
    ofInt ts ++ '|' :: [if routed then 'D' else 'F']) 680

def forwardOpRequestToPeers (h : OpHub) (id requester target channel hostmask : Str)
    (exclude : Option Nat) (originTs now : Int) (split : Bool) : List OpOut :=
  let ts := if 0 < originTs then originTs else now
  let (peers, routed) := opPeers h target exclude split
  peers.map fun c =>
    .peer c.id (.request (opForwardText id requester target channel hostmask ts routed))

/-! ### The four handlers -/

/-- `target|channel`: up to 63 bytes to the bar, then a word of up to 64. -/
def readOpRequest (payload : Str) : Option (Str × Str) :=
  let target := takeBytes 63 (payload.takeWhile (· != '|'))
  if target.isEmpty then none
  else
    match payload.drop target.length with
    | '|' :: rest =>
      let channel := takeBytes 64 ((rest.dropWhile isCSpace).takeWhile fun c => !isCSpace c)
      if channel.isEmpty then none else some (target, channel)
    | _ => none

/-- The connection a bot is on is told that its request failed. -/
def tellFailed (h : OpHub) (fd : Nat) (reason : Str) : List OpOut :=
  match clientByFd h fd with
  | some c => (sendCmdToBot c .failed reason).1
  | none => []

/-- A request of a bot connected here. -/
def processOpRequest (h : OpHub) (c : OpClient) (payload : Str) (id : Str) (now : Int) :
    OpHub × List OpOut :=
  match readOpRequest payload with
  | none => (h, [])
  | some (target, channel) =>
    let hostmask := trunc (h.hostmask c.id) maxMaskLen
    match botClient h target with
    -- the target is connected here: it gets the mask and the channel at once
    | some t =>
      if hostmask.isEmpty then (h, tellFailed h c.fd "Hostmask not yet stored".toList)
      else (h, (sendCmdToBot t .grant (trunc (hostmask ++ '|' :: channel) 512)).1)
    -- it may be connected to another hub: the request is recorded and goes to the peers
    | none =>
      if (peerClients h).isEmpty || hostmask.isEmpty then
        (h, tellFailed h c.fd "Target bot not connected".toList)
      else
        match addPendingOpRequest h id c.id target channel c.fd now with
        | none => (h, tellFailed h c.fd "Target bot not connected".toList)
        | some h =>
          let h := if opSeen h id then h else opSeenAdd h id
          (h, forwardOpRequestToPeers h id c.id target channel hostmask none now now false)

/-- A request as a peer reads it. -/
structure OpForward where
  id : Str
  requester : Str
  target : Str
  channel : Str
  hostmask : Str
  originTs : Int
  flooded : Bool
  deriving Repr, DecidableEq

def readOpForward (payload : Str) : Option OpForward :=
  let conv := sscanf payload [.set 63, .lit '|', .set 63, .lit '|', .set 63, .lit '|',
    .set 64, .lit '|', .set 255, .lit '|', .int]
  match conv with
  | id :: requester :: target :: channel :: rest =>
    some { id := id.text, requester := requester.text, target := target.text,
           channel := channel.text
           hostmask := (rest[0]?.map Conv.text).getD []
           originTs := (rest[1]?.map Conv.num).getD 0
           flooded := decide ((payload.splitOn '|').getLast? = some ['F']) }
  | _ => none

/-- A request an admin made for a nick; every bot is told. -/
def OpForward.isAdmin (f : OpForward) : Bool :=
  decide (f.target = "ANY".toList) && decide (f.requester = "ADMIN".toList)

/-- `nick:channel` of an admin's request. -/
def readAdminOp (channel : Str) : Option (Str × Str) :=
  let nick := takeBytes 63 (channel.takeWhile (· != ':'))
  if nick.isEmpty then none
  else
    match channel.drop nick.length with
    | ':' :: rest =>
      let chan := takeBytes 64 ((rest.dropWhile isCSpace).takeWhile fun c => !isCSpace c)
      if chan.isEmpty then none else some (nick, chan)
    | _ => none

/-- The bots logged in here. -/
def botClients (h : OpHub) : List OpClient :=
  h.clients.filter fun c => decide (c.typ = .bot) && c.authenticated && !c.superseded

/-- A request that is too old. -/
def opExpired (f : OpForward) (now : Int) : Bool :=
  decide (0 < f.originTs) && decide (opForwardTtlSeconds < now - f.originTs)

/-- The hostmask to op: the one carried, else the stored one. -/
def opMask (h : OpHub) (f : OpForward) : Str :=
  if f.hostmask.isEmpty then trunc (h.hostmask f.requester) maxMaskLen
    else trunc f.hostmask maxMaskLen

/-- An answer to the peer on a descriptor. -/
def answerPeer (h : OpHub) (fd : Nat) (frame : OpFrame) : List OpOut :=
  match clientByFd h fd with
  | some c => [.peer c.id frame]
  | none => []

/-- The target `t` is connected here. The peer hears of the grant when the target's lane took it,
and of a request without a hostmask. When the lane is full it hears nothing. -/
def serveOp (h : OpHub) (c t : OpClient) (f : OpForward) : List OpOut :=
  if (opMask h f).isEmpty then
    answerPeer h c.fd (.failed (trunc (f.id ++ '|' :: "No hostmask found".toList) 256))
  else
    let (outs, queued) := sendCmdToBot t .grant (trunc (opMask h f ++ '|' :: f.channel) 512)
    if queued then outs ++ answerPeer h c.fd (.grant f.id) else []

/-- A request from a peer, on the link `c`. -/
def processForwardOpRequest (h : OpHub) (c : OpClient) (payload : Str) (now : Int) :
    OpHub × List OpOut :=
  match readOpForward payload with
  | none => (h, [])
  | some f =>
    -- too old, or one that came over another link before
    if opExpired f now || opSeen h f.id then (h, [])
    else
      let h := opSeenAdd h f.id
      if f.isAdmin then
        -- an admin's request is for every bot there is, here and on the other hubs
        match readAdminOp f.channel with
        | none => (h, [])
        | some (nick, chan) =>
          (h, (botClients h).flatMap
          (fun b => (sendCmdToBot b .grant (trunc (nick ++ '|' :: chan) 256)).1) ++
            forwardOpRequestToPeers h f.id f.requester f.target f.channel []
              (some c.fd) f.originTs now f.flooded)
      else
        match botClient h f.target with
        -- the target is not here: the request goes on
        | none =>
          (h, forwardOpRequestToPeers h f.id f.requester f.target f.channel f.hostmask (some c.fd)
            f.originTs now f.flooded)
        | some t => (h, serveOp h c t f)

/-- A peer's bot granted the request. -/
def processForwardOpGrant (h : OpHub) (payload : Str) : OpHub :=
  if 64 ≤ utf8Len payload then h else removePendingOpRequest h payload

/-- The id and the reason of a refusal. -/
def readOpFailed (payload : Str) : Option (Str × Str) :=
  let id := takeBytes 63 (payload.takeWhile (· != '|'))
  if id.isEmpty then none
  else
    match payload.drop id.length with
    | '|' :: rest => some (id, takeBytes 255 (rest.takeWhile (· != '\n')))
    | _ => some (id, [])

/-- A peer could not serve the request: the bot on the descriptor it came from is told. -/
def processForwardOpFailed (h : OpHub) (payload : Str) : OpHub × List OpOut :=
  match readOpFailed payload with
  | none => (h, [])
  | some (id, reason) =>
    match findPendingOpRequest h id with
    | none => (h, [])
    | some i =>
      -- the bot that asked may have closed meanwhile, and its descriptor be another's
      let told := match h.pendingOpRequests[i]?.bind fun p => clientByFd h p.originFd with
        | some c =>
          if c.typ = .bot then (sendCmdToBot c .failed
            (if reason.isEmpty then "Target bot not found on network".toList else reason)).1
          else []
        | none => []
      (removePendingOpRequest h id, told)

/-! ### The mesh -/

/-- A frame on a link, with the clock of the hub that sent it and of the one it goes to, as it was
sent. -/
structure SentFrame where
  frame : OpFrame
  sentAt : Int
  dueAt : Int
  deriving Repr, DecidableEq

/-- Hubs, their clocks and the frames from one to another in the order they were sent. As history:
which connection made a request (hub, id, connection), which was told that one failed, and the
requests (hub, id) on whose descriptor a bot's connection was opened while they waited. -/
structure OpMesh where
  hub : Str → OpHub
  clock : Str → Int := fun _ => 0
  wire : Str → Str → List SentFrame := fun _ _ => []
  made : List (Str × Str × Nat) := []
  told : List (Str × Str × Nat) := []
  reused : List (Str × Str) := []

inductive OpEvent
  /-- A bot on the connection of the hub asks; the id is a new one. -/
  | request (hub : Str) (fd : Nat) (payload : Str) (random : Fin 8 → UInt8)
  /-- The next frame on a link arrives. -/
  | deliver (sender receiver : Str)
  /-- A connection logs in, on a descriptor that is free. -/
  | connect (hub : Str) (fd : Nat) (typ : OpClientType) (id : Str)
  /-- A connection other than a hub link closes. -/
  | close (hub : Str) (fd : Nat)
  /-- The urgent lane of a connection fills, or has room again. -/
  | lane (hub : Str) (fd : Nat) (full : Bool)
  /-- The link between two hubs goes down, and what is on it is lost. -/
  | linkDown (a b : Str)
  /-- A clock moves. -/
  | clock (hub : Str) (now : Int)
  /-- What a hub knows of the bots and the links of its peers. -/
  | learn (hub : Str) (roster : List (Str × Str)) (hostmask : Str → Str)
      (linkReport : Str → Option (List Str))

def OpMesh.setHub (m : OpMesh) (x : Str) (h : OpHub) : OpMesh :=
  { m with hub := fun y => if y = x then h else m.hub y }

/-- Frames of a hub go on the links. -/
def OpMesh.send (m : OpMesh) (x : Str) (outs : List OpOut) : OpMesh :=
  { m with wire := fun a b => if a = x then m.wire a b ++ outs.filterMap (fun
      | .peer uuid frame => if uuid = b then some ⟨frame, m.clock x, m.clock b⟩ else none
      | .bot _ _ _ => none)
    else m.wire a b }

/-- The connections a hub tells of a failure. -/
def toldOf (x id : Str) (outs : List OpOut) : List (Str × Str × Nat) :=
  outs.filterMap fun
    | .bot serial .failed _ => some (x, id, serial)
    | _ => none

/-- A frame arrives over the link `c`. -/
def opReceive (m : OpMesh) (y : Str) (c : OpClient) : OpFrame → OpMesh
  | .request payload =>
    let r := processForwardOpRequest (m.hub y) c payload (m.clock y)
    (m.setHub y r.1).send y r.2
  | .grant payload => m.setHub y (processForwardOpGrant (m.hub y) payload)
  | .failed payload =>
    let r := processForwardOpFailed (m.hub y) payload
    let id := ((readOpFailed payload).map (·.1)).getD []
    { m.setHub y r.1 with told := m.told ++ toldOf y id r.2 }

/-- The links once the first frame from `x` to `y` is taken off. -/
def OpMesh.pop (m : OpMesh) (x y : Str) (rest : List SentFrame) : OpMesh :=
  { m with wire := fun a b => if a = x ∧ b = y then rest else m.wire a b }

/-- A frame from `x` reaches `y`, if `y` is still linked to `x`. -/
def opArrive (m : OpMesh) (x y : Str) (frame : OpFrame) : OpMesh :=
  match peerClient (m.hub y) x with
  | none => m
  | some c => opReceive m y c frame

/-- Bots and hubs other than the peer keep their connection. -/
def dropPeer (h : OpHub) (peer : Str) : OpHub :=
  { h with clients := h.clients.filter fun c => !(decide (c.typ = .hub) && decide (c.id = peer)) }

/-- An older session of the bot that logs in. -/
def supersede (id : Str) (o : OpClient) : OpClient :=
  if o.typ = .bot ∧ o.authenticated ∧ o.id = id then { o with superseded := true } else o

/-- One live session per bot: the older ones are superseded, and the lookups skip them. -/
def supersedeBotSessions (h : OpHub) (id : Str) : OpHub :=
  { h with clients := h.clients.map (supersede id) }

/-- A connection with the next serial. -/
def openConnection (h : OpHub) (fd : Nat) (typ : OpClientType) (id : Str) : OpHub :=
  let h := if typ = .bot then supersedeBotSessions h id else h
  { h with
      clients := h.clients ++ [{ fd, connSerial := h.nextConnSerial, typ, id }]
      nextConnSerial := h.nextConnSerial + 1 }

/-- The requests of a hub that wait, made on a descriptor. -/
def waitingOn (h : OpHub) (fd : Nat) : List Str :=
  (h.pendingOpRequests.filter fun p => p.active && decide (p.originFd = fd)).map (·.requestId)

def setLane (h : OpHub) (fd : Nat) (full : Bool) : OpHub :=
  { h with clients := h.clients.map fun c => if c.fd = fd
           then { c with laneFull := full } else c }

def opStep (m : OpMesh) : OpEvent → OpMesh
  | .request x fd payload random =>
    -- only an authenticated bot is heard
    match clientByFd (m.hub x) fd with
    | none => m
    | some c =>
      if c.typ = .bot ∧ c.authenticated then
        let id := generateRequestId random
        let r := processOpRequest (m.hub x) c payload id (m.clock x)
        { (m.setHub x r.1).send x r.2 with
          made := m.made ++ [(x, id, c.connSerial)]
          told := m.told ++ toldOf x id r.2 }
      else m
  | .deliver x y =>
    match m.wire x y with
    | [] => m
    | s :: rest => opArrive (m.pop x y rest) x y s.frame
  | .connect x fd typ id =>
    -- a descriptor that is in use is given to nobody
    if (clientByFd (m.hub x) fd).isSome then m
    else { m.setHub x (openConnection (m.hub x) fd typ id) with
      reused := m.reused ++ if typ = .bot then (waitingOn (m.hub x) fd).map fun id =>
        (x, id) else [] }
  | .close x fd => m.setHub x { m.hub x with
      clients := (m.hub x).clients.filter fun c =>
        !(decide (c.fd = fd) && decide (c.typ ≠ .hub)) }
  | .lane x fd full => m.setHub x (setLane (m.hub x) fd full)
  | .linkDown a b =>
    let m := { m with
      wire := fun x y => if (x = a ∧ y = b) ∨ (x = b ∧ y = a) then [] else m.wire x y }
    (m.setHub a (dropPeer (m.hub a) b)).setHub b
    (dropPeer ((m.setHub a (dropPeer (m.hub a) b)).hub b) a)
  | .clock x now => { m with clock := fun y => if y = x then now else m.clock y }
  | .learn x roster hostmask linkReport =>
    m.setHub x { m.hub x with roster, hostmask, linkReport }

def opRun (m : OpMesh) (evs : List OpEvent) : OpMesh := evs.foldl opStep m

end IrcHub.Hub
