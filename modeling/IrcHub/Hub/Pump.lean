import IrcHub.Hub.BotAuth
import IrcHub.Hub.Consts
import IrcHub.Hub.Link
import IrcHub.Lib.Frames

/-!
# `IrcHub.Hub.Pump`: from the bytes of a connection to its frames

From the bytes of a connection to its frames, from `client.rs`. `readOne` reads what the socket
has into the receive buffer of a connection, and `handleClientData` takes whole frames off it, at
most eight a call. The read offset moves past a frame; the buffer is compacted only when there is
no room to read into.

- `Session`: what the pump reads of a connection besides its buffer
- `Handlers`: what handles the frames, over the rest of the hub
- `pump`, `handleClientData`: frames off the buffer, with some packets left of the budget
- `readOne`: one readable client
- `Turn`: what the main loop does that concerns a connection, and `Reader` with its trace

A buffer that still has a whole frame after eight is pumped again by the main loop without a read
(`hasBufferedFrame`). A length above what the buffer has room for ends the connection.

What a frame does is a parameter (`Handlers`), with the branches of the pump that choose among its
handlers. A handler may close its connection, and it may promote its buffers to the size of an
authenticated client. Logging and the statistics are left out.
-/

set_option autoImplicit false

namespace IrcHub.Hub

open Frames

/-- Frames that one call takes off a buffer. -/
abbrev packetsPerCall : Nat := 8

/-- Bytes of one read. -/
abbrev readChunk : Nat := 64 * 1024

/-! ### A connection -/

/-- What the pump reads of a connection besides its buffer. -/
structure Session where
  /-- An SSH console's connection. -/
  internal : Bool := false
  authenticated : Bool := false
  typ : ClientType := .bot
  retiring : Bool := false
  refused : Bool := false
  linkRxSeq : Bool := false
  linkRxCtr : Nat := 0
  lastPongSent : Int := 0
  deriving Repr, DecidableEq

structure Conn where
  fd : Int
  session : Session := {}
  recvBuf : List UInt8 := []
  /-- The unread bytes start here. -/
  recvOff : Nat := 0
  recvCap : Nat
  deriving Repr, DecidableEq

namespace Conn

def unread (c : Conn) : List UInt8 := c.recvBuf.drop c.recvOff

/-- The largest frame that the buffer has room for, with its length. -/
def room (c : Conn) : Int := (c.recvCap : Int) - 4

/-- The receive buffer that a type of client gets. -/
def recvTarget : ClientType → Nat
  | .hub => maxSyncPayload
  | .bot | .admin => maxBuffer

/-- The size of a buffer after `promote_buffers`. -/
def promoted (typ : ClientType) (cap : Nat) : Nat :=
  if cap < recvTarget typ then recvTarget typ else cap

/-- The buffer holds a whole frame, or a length that the pump refuses. -/
def hasBufferedFrame (c : Conn) : Bool :=
  let unread := c.unread
  -- a length field that is not whole is no frame yet
  if c.fd ≤ 0 || unread.length < 4 then false
  -- a length past the buffer counts as buffered: the pump has to see it to refuse it
  else if c.room < prefixLen unread then true
  else 4 + prefixLen unread ≤ unread.length

/-- The unread bytes move to the front once there is no room to read into. -/
def compactRecv (c : Conn) : Conn :=
  -- only when full: moving the bytes on every read would be quadratic
  if 0 < c.recvOff && c.recvCap ≤ c.recvBuf.length
    then { c with recvBuf := c.recvBuf.drop c.recvOff, recvOff := 0 } else c

/-- A connection that stays: its session, and buffers that may have been promoted. -/
def settled (c : Conn) (s : Session) (promote : Bool) : Conn :=
  { c with session := s, recvCap := if promote then promoted s.typ c.recvCap else c.recvCap }

/-- Steps past a frame. -/
def stepPast (c : Conn) (packetLen : Nat) : Conn :=
  let off := c.recvOff + (4 + packetLen)
  -- the last frame of the buffer: both ends start over
  if c.recvBuf.length ≤ off then { c with recvBuf := [], recvOff := 0 }
    else { c with recvOff := off }

end Conn

/-! ### What a frame does -/

/-- What became of a connection. -/
inductive Fate
  | gone
  /-- It stays, and `promote_buffers` may have run. -/
  | stays (s : Session) (promote : Bool)
  deriving Repr, DecidableEq

/-- What handles the frames, over the rest of the hub. -/
structure Handlers (ω : Type) where
  now : ω → Int
  consoleFrame : ω → Session → List UInt8 → ω × Fate
  unauthenticated : ω → Session → List UInt8 → ω × Fate
  decrypt : ω → Session → List UInt8 → List UInt8 → Option (List UInt8)
  sendPong : ω → Session → ω × Bool
  linkSeqRecv : ω → Session → List UInt8 → ω × Fate
  adminCommand : ω → Session → UInt8 → List UInt8 → ω × Fate
  retireAckApply : ω → Session → List UInt8 → ω
  botCommand : ω → Session → UInt8 → List UInt8 → ω × Fate
  peerFrame : ω → Session → UInt8 → List UInt8 → ω × Fate

variable {ω : Type}

namespace Handlers

/-- One command of an authenticated client. -/
def command (h : Handlers ω) (w : ω) (s : Session) (cmd : UInt8)
    (payload : List UInt8) : ω × Fate :=
  -- a console link has no sequence numbers
  if s.typ ≠ .admin && cmd.toNat = cmdLinkSeq then h.linkSeqRecv w s payload
  else
    match s.typ with
    | .admin => h.adminCommand w s cmd payload
    | .bot =>
      -- a bot on its way out: only the acknowledgement matters
      if s.retiring then
        if cmd.toNat = cmdBotRetireAck then (h.retireAckApply w s payload, .gone)
          else (w, .stays s false)
      else h.botCommand w s cmd payload
    | .hub => h.peerFrame w s cmd payload

/-- A client that the command refused goes. -/
def dropRefused : ω × Fate → ω × Fate
  | (w, .stays s promote) => if s.refused then (w, .gone) else (w, .stays s promote)
  | (w, .gone) => (w, .gone)

/-- What was sealed in a frame. -/
def opened (h : Handlers ω) (w : ω) (s : Session) : List UInt8 → ω × Fate
  | [] => (w, .gone)
  | cmd :: rest =>
    -- counted before the command is looked at, so every frame counts
    let s := if s.linkRxSeq then { s with linkRxCtr := s.linkRxCtr + 1 } else s
    if cmd.toNat = cmdPing then
      -- a ping within five seconds of the last pong is taken and not answered
      if 5 ≤ h.now w - s.lastPongSent then
        match h.sendPong w s with
        | (w', true) => (w', .stays { s with lastPongSent := h.now w } false)
        | (w', false) => (w', .gone)
      else (w, .stays s false)
    -- `[cmd][len:4][payload]`
    else if rest.length < 4 then (w, .gone)
    else dropRefused (h.command w s cmd (rest.drop 4))

/-- One frame to the handler it is for. -/
def dispatch (h : Handlers ω) (w : ω) (s : Session) (frame : List UInt8) : ω × Fate :=
  -- the inner link of a console is not encrypted
  if s.internal then h.consoleFrame w s frame
  else if !s.authenticated then h.unauthenticated w s frame
  else if gcmTagLen < frame.length then
    match h.decrypt w s (frame.take (frame.length - gcmTagLen))
      (frame.drop (frame.length - gcmTagLen)) with
    | none => (w, .gone)
    | some plain => h.opened w s plain
  -- too short to hold a tag
  else (w, .gone)

end Handlers

/-! ### Reading -/

/-- A connection, the bytes that its other end has yet to deliver, and what was done so far. -/
structure Reader (ω : Type) where
  world : ω
  conn : Option Conn
  incoming : List UInt8
  /-- The frames that were handed on, and the length that was refused. -/
  trace : List Event := []
  /-- The limit that each of these was read under. -/
  rooms : List Int := []
  /-- `read_one` closed the connection over a full buffer with nothing in it to handle. -/
  overflowed : Bool := false

namespace Reader

/-- The connection is closed. -/
def disconnect (r : Reader ω) : Reader ω := { r with conn := none }

/-- The pump read a length under the limit of a connection. -/
def note (r : Reader ω) (c : Conn) (e : Event) : Reader ω :=
  { r with trace := r.trace ++ [e], rooms := r.rooms ++ [c.room] }

/-- What became of the connection once a handler is done. -/
def after (r : Reader ω) (c : Conn) (packetLen : Nat) : ω × Fate → Reader ω
  | (w, .gone) => { r with world := w, conn := none }
  | (w, .stays s promote) =>
      { r with world := w, conn := some ((c.settled s promote).stepPast packetLen) }

/-- The pump, with some packets left of its budget. -/
def pump (h : Handlers ω) : Nat → Reader ω → Reader ω
  | 0, r => r
  | n + 1, r =>
    match r.conn with
    | none => r
    | some c =>
      if c.fd < 0 || c.recvBuf.length - c.recvOff < 4 then r
      else
        let packetLen := prefixLen c.unread
        -- the refused length goes on the record, then the connection closes
        if c.room < packetLen then (r.note c (.overlong packetLen)).disconnect
        -- the rest of the frame has not arrived
        else if c.recvBuf.length - c.recvOff < 4 + packetLen then r
        else
          let frame := (c.recvBuf.drop (c.recvOff + 4)).take packetLen
          pump h n ((r.note c (.frame frame)).after c packetLen
            (h.dispatch r.world c.session frame))

/-- Whole frames out of a client's receive buffer, at most eight so that one backlogged peer does
not starve the rest. -/
def handleClientData (h : Handlers ω) (r : Reader ω) : Reader ω := pump h packetsPerCall r

/-- What the socket says to a read. -/
inductive ReadResult
  /-- Up to so many bytes, none at the end of the stream. -/
  | got (n : Nat)
  | wouldBlock
  | failed
  deriving Repr, DecidableEq

/-- The bytes of one read into a space. -/
def chunk (r : Reader ω) (n space : Nat) : List UInt8 :=
  r.incoming.take (min n (min space readChunk))

/-- One read goes to the end of the buffer. -/
def received (r : Reader ω) (c : Conn) (bytes : List UInt8) : Reader ω :=
  { r with conn := some { c with recvBuf := c.recvBuf ++ bytes },
           incoming := r.incoming.drop bytes.length }

/-- One readable SSH console link. -/
def readConsole (h : Handlers ω) (res : ReadResult) (r : Reader ω) (c : Conn) : Reader ω :=
  let c := c.compactRecv
  let space := c.recvCap - c.recvBuf.length
  match res with
  | .got n =>
    let bytes := r.chunk n space
    -- no bytes although there was room: the end of the stream
    if bytes.isEmpty && 0 < space then (r.received c bytes).disconnect
      else handleClientData h (r.received c bytes)
  | .wouldBlock => handleClientData h { r with conn := some c }
  | .failed => r.disconnect

/-- One readable client: fill its buffer, then hand whole frames to the pump. -/
def readOne (h : Handlers ω) (res : ReadResult) (r : Reader ω) : Reader ω :=
  match r.conn with
  | none => r
  | some c =>
    if c.fd < 0 then r
    else if c.session.internal then readConsole h res r c
    else
      let c := c.compactRecv
      let space := c.recvCap - c.recvBuf.length
      -- a full buffer is not read into, what it holds is handled first
      if 0 < space then
        match res with
        | .got n =>
          let bytes := r.chunk n space
          if bytes.isEmpty then r.disconnect else handleClientData h (r.received c bytes)
        | .wouldBlock | .failed => r.disconnect
      -- full, and nothing in it to handle: nothing could ever move again
      else if !c.hasBufferedFrame then { r with conn := none, overflowed := true }
      else handleClientData h { r with conn := some c }

/-! ### Runs -/

/-- What the main loop does that concerns a connection. -/
inductive Turn (ω : Type)
  /-- Its socket is readable. -/
  | readable (res : ReadResult)
  /-- It is not, and frames are left over from an earlier read. -/
  | leftover
  /-- Something else of the hub runs. -/
  | elsewhere (f : ω → Session → ω × Fate)

/-- What ran elsewhere leaves the buffer of a connection alone. -/
def elsewhere (r : Reader ω) (f : ω → Session → ω × Fate) : Reader ω :=
  match r.conn with
  | none => r
  | some c =>
    match f r.world c.session with
    | (w, .gone) => { r with world := w, conn := none }
    | (w, .stays s promote) => { r with world := w, conn := some (c.settled s promote) }

def turn (h : Handlers ω) (r : Reader ω) : Turn ω → Reader ω
  | .readable res => readOne h res r
  -- without a whole frame there is nothing to hand on
  | .leftover => if r.conn.any Conn.hasBufferedFrame then handleClientData h r else r
  | .elsewhere f => r.elsewhere f

def run (h : Handlers ω) (r : Reader ω) (turns : List (Turn ω)) : Reader ω :=
  turns.foldl (turn h) r

/-- A connection that was just accepted or dialled, and the stream that its other end sends. -/
def start (w : ω) (fd : Int) (session : Session) (size : Nat) (stream : List UInt8) : Reader ω :=
  { world := w, conn := some { fd := fd, session := session, recvCap := size },
    incoming := stream }

end Reader

end IrcHub.Hub
