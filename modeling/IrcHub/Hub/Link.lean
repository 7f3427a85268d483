import IrcHub.Hub.Consts
import IrcHub.Hub.Cstr
import IrcHub.Lib.Channel

/-!
# `IrcHub.Hub.Link`: numbered frames between two ends of a link

Numbered frames between two ends of a link, from `crypto.rs`, `client.rs` and `queue.rs`. After a
link has authenticated, each end sends an offer and answers the other's offer with a go. What an
end seals after its go carries a direction byte and a counter as associated data. These are not
sent: the other end must know which frame comes next.

- `LinkEnd`: what one end keeps; `linkOffer`, `encryptIntoWriting` and `openFrame` are its steps
- `LinkNet`: both ends, every frame sealed under the session key, and what each end sealed and
  accepted once the numbers were on
- `LinkEvent`, `LinkNet.step`, `LinkNet.run`: what can happen, and a run
- `linkStart`: a link that just authenticated, between two hubs or a hub and a bot

The cipher is ideal: a frame opens if it was sealed under the key with the same associated data.
So the network may lose, repeat, reorder and reflect frames, and it may hand over frames of the
other direction, but it cannot make one up.

Which queued frame is sealed next (lanes, coalescing, budgets) is left open, and so is what the
network does with the frames. A frame that does not open ends its connection.
-/

set_option autoImplicit false

namespace IrcHub.Hub

open Str Channel
open String (utf8Len)

abbrev cmdPing : Nat := 0x01
abbrev cmdLinkSeq : Nat := 0x83
abbrev gcmIvLen : Nat := 12
abbrev gcmTagLen : Nat := 16

/-- Kind of a connection. -/
inductive ClientType
  | bot | hub | admin
  deriving Repr, DecidableEq

/-- A frame before it is sealed. -/
structure LinkMsg where
  cmd : Nat
  payload : Str
  deriving Repr, DecidableEq

/-- A sealed frame: what the cipher binds together. -/
structure Frame where
  aad : List Nat
  msg : LinkMsg
  deriving Repr, DecidableEq

/-- One end of a link. `live` ends with the connection, or with the process. -/
structure LinkEnd where
  dirTx : Nat
  dirRx : Nat
  offered : Bool := false
  goQueued : Bool := false
  txSeq : Bool := false
  rxSeq : Bool := false
  txCtr : Nat := 0
  rxCtr : Nat := 0
  writingCap : Nat
  queued : List LinkMsg := []
  live : Bool := true
  deriving Repr, DecidableEq

/-- The associated data of frame number `ctr` sent with direction byte `dir`. -/
def linkAad (dir ctr : Nat) : List Nat := "LNK1".toList.map Char.toNat ++ dir :: beBytes 8 ctr

/-- Queue a frame. -/
def LinkEnd.sendUrgent (e : LinkEnd) (cmd : Nat) (payload : Str) : LinkEnd :=
  { e with queued := e.queued ++ [⟨cmd, payload⟩] }

/-- A queued frame leaves the queue. -/
def LinkEnd.unqueue (e : LinkEnd) (i : Nat) : LinkEnd := { e with queued := e.queued.eraseIdx i }

/-- A link that just authenticated: the direction bytes, and the offer. Between hubs the lower
uuid decides them. -/
def linkOffer (typ : ClientType) (hubUuid : Str) (peerUuid : Option Str)
    (writingCap : Nat) : LinkEnd :=
  let lower := match peerUuid with
    | some pu => decide (hubUuid < pu)
    | none => false
  let dirs := match typ with
    | .hub => if lower then ('L', 'G') else ('G', 'L')
    | _ => ('H', 'B')
  LinkEnd.sendUrgent { dirTx := dirs.1.toNat, dirRx := dirs.2.toNat,
                       writingCap := writingCap } cmdLinkSeq
    "offer".toList

/-- The offer or the go of the other end. -/
def linkSeqRecv (e : LinkEnd) (what : Str) : LinkEnd :=
  if what = "offer".toList && !e.offered then
    let e := { e with offered := true }
    if e.goQueued then e
    else LinkEnd.sendUrgent { e with goQueued := true } cmdLinkSeq "go".toList
  else if what = "go".toList && e.offered && !e.rxSeq then { e with rxSeq := true, rxCtr := 0 }
  else e

/-- Seal a frame, or lose one that does not fit. What is sealed after our go is numbered; a number
past 64 bits ends the process. -/
def encryptIntoWriting (e : LinkEnd) (m : LinkMsg) : LinkEnd × Option Frame :=
  if utf8Len m.payload > maxSyncPayload then (e, none)
  else if 4 + gcmIvLen + (5 + utf8Len m.payload) + gcmTagLen > e.writingCap then (e, none)
  else if e.txSeq then
    if e.txCtr + 1 < 256 ^ 8
      then ({ e with txCtr := e.txCtr + 1 }, some ⟨linkAad e.dirTx e.txCtr, m⟩)
    else ({ e with live := false }, none)
  else if m.cmd = cmdLinkSeq && m.payload = "go".toList
    then ({ e with txSeq := true }, some ⟨[], m⟩)
  else (e, some ⟨[], m⟩)

/-- A frame from the network: the end after it, and whether it opened. One that does not open ends
the link, and a number past 64 bits the process. -/
def openFrame (wire : List Frame) (e : LinkEnd) (f : Frame) : LinkEnd × Bool :=
  let aad := if e.rxSeq then linkAad e.dirRx e.rxCtr else []
  if f ∉ wire ∨ f.aad ≠ aad then ({ e with live := false }, false)
  else if e.rxSeq && decide (256 ^ 8 ≤ e.rxCtr + 1) then ({ e with live := false }, false)
  else
    let e := if e.rxSeq then { e with rxCtr := e.rxCtr + 1 } else e
    if f.msg.cmd ≠ cmdPing && f.msg.cmd = cmdLinkSeq
      then (linkSeqRecv e (untilNul f.msg.payload), true)
    else (e, true)

/-! ### The link -/

/-- The two ends. -/
inductive Side
  | dialler | listener
  deriving Repr, DecidableEq

def Side.other : Side → Side
  | .dialler => .listener
  | .listener => .dialler

/-- An end with its logs: what it sealed after its go, and what it accepted after a go. -/
structure LinkSide where
  state : LinkEnd
  sealedLog : List Frame := []
  acceptedLog : List Frame := []
  deriving Repr, DecidableEq

/-- A link, with every frame sealed under its key. -/
structure LinkNet where
  dialler : LinkSide
  listener : LinkSide
  wire : List Frame := []
  deriving Repr, DecidableEq

def LinkNet.side (n : LinkNet) : Side → LinkSide
  | .dialler => n.dialler
  | .listener => n.listener

def LinkNet.put (n : LinkNet) (s : Side) (x : LinkSide) : LinkNet :=
  match s with
  | .dialler => { n with dialler := x }
  | .listener => { n with listener := x }

/-- What happens on a link. The network hands over any frame it likes. -/
inductive LinkEvent
  | queue (s : Side) (m : LinkMsg)
  | drop (s : Side) (i : Nat)
  | drain (s : Side) (i : Nat)
  | deliver (s : Side) (f : Frame)
  | close (s : Side)
  deriving Repr, DecidableEq

/-- An end after it sealed a frame or lost it. The log is of the frames sealed after the go. -/
def LinkNet.sealAt (n : LinkNet) (s : Side) (r : LinkEnd × Option Frame) : LinkNet :=
  let x := n.side s
  match r.2 with
  | none => n.put s { x with state := r.1 }
  | some f =>
    let n := n.put s
      { x with
        state := r.1
        sealedLog := if x.state.txSeq then x.sealedLog ++ [f] else x.sealedLog }
    { n with wire := n.wire ++ [f] }

/-- Queued frame `i` is sealed. -/
def LinkNet.drain (n : LinkNet) (s : Side) (i : Nat) : LinkNet :=
  match (n.side s).state.queued[i]? with
  | none => n
  | some m => n.sealAt s (encryptIntoWriting ((n.side s).state.unqueue i) m)

/-- The network hands a frame to an end. -/
def LinkNet.deliver (n : LinkNet) (s : Side) (f : Frame) : LinkNet :=
  let x := n.side s
  let r := openFrame n.wire x.state f
  n.put s
    { x with
      state := r.1
      acceptedLog := if r.2 && x.state.rxSeq then x.acceptedLog ++ [f] else x.acceptedLog }

/-- An end changes by itself. -/
def LinkNet.modify (n : LinkNet) (s : Side) (f : LinkEnd → LinkEnd) : LinkNet :=
  n.put s { n.side s with state := f (n.side s).state }

/-- One event at an end that is still there. -/
def LinkNet.stepAt (n : LinkNet) : LinkEvent → LinkNet
  | .queue s m => n.modify s fun e => e.sendUrgent m.cmd m.payload
  | .drop s i => n.modify s fun e => e.unqueue i
  | .drain s i => n.drain s i
  | .deliver s f => n.deliver s f
  | .close s => n.modify s fun e => { e with live := false }

def LinkEvent.place : LinkEvent → Side
  | .queue s _ | .drop s _ | .drain s _ | .deliver s _ | .close s => s

/-- One event. Nothing happens any more at an end that is gone. -/
def LinkNet.step (n : LinkNet) (ev : LinkEvent) : LinkNet :=
  if (n.side ev.place).state.live then n.stepAt ev else n

/-- Who is linked: two hubs, each with the uuid it has for the other, or a hub and the bot that
dialled it. -/
inductive LinkKind
  | hubs (uuid peerUuid : Str) (uuid' peerUuid' : Str)
  | bot (hubUuid : Str)
  deriving Repr, DecidableEq

/-- A link that just authenticated, with the frames the handshake sealed. A bot's direction bytes
are those of its hub the other way. -/
def linkStart (kind : LinkKind) (cap cap' : Nat) (early : List LinkMsg) : LinkNet :=
  let wire := early.map (Frame.mk [])
  match kind with
  | .hubs uuid peerUuid uuid' peerUuid' =>
    { dialler := { state := linkOffer .hub uuid (some peerUuid) cap }
      listener := { state := linkOffer .hub uuid' (some peerUuid') cap' }
      wire := wire }
  | .bot hubUuid =>
    let h := linkOffer .bot hubUuid none cap'
    { dialler := { state := { h with dirTx := h.dirRx, dirRx := h.dirTx, writingCap := cap } }
      listener := { state := h }
      wire := wire }

/-- A link after some events. -/
def LinkNet.run (n : LinkNet) (evs : List LinkEvent) : LinkNet := evs.foldl LinkNet.step n

end IrcHub.Hub
