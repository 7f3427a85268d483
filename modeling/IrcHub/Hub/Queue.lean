import IrcHub.Hub.Checked
import IrcHub.Hub.Consts
import IrcHub.Lib.Str
import Mathlib.Logic.Function.Basic

/-!
# `IrcHub.Hub.Queue`: the outbound queue of a connection

The outbound queue of a connection, from `queue.rs`. Three lanes, drained in the order of their
priority. `enqueue` puts a message on its lane or in the place of one with its key; a full lane
makes room by dropping its oldest message, the urgent one refuses. `drainWritable` takes messages
off while the socket takes their bytes.

- `QueuedMsg`: a message, no larger than the bulk ceiling, with its lane and coalescing key
- `OutQueue`: a connection, as far as its queue goes, with its counters
- `account`, `dropOldest`, `pushBack`, `coalesce`: the changes of a lane, each with its counters
- `pushInFlight`, `encryptIntoWriting`, `drainLane`: what goes out. A message is sealed into the
  frame in flight and is off its lane from then on
- `QueueOp`: what is done to a queue, and `QueueEvent`, what happened to a message

The counters are the messages and the bytes of each lane and the bytes of all. They are checked
arithmetic: a difference below zero stops the hub.

The budget of a second bounds what a lane may send, and a full socket ends the drain with a frame
in flight, which goes out first the next time.

Left out: what sealing does to the link (`IrcHub.Hub.Link`) and the bytes it makes, of which the
length remains; a console's connection, which has a queue of its own; the log.
-/

set_option autoImplicit false

namespace IrcHub.Hub

open Str

/-! ### Messages and lanes -/

abbrev blineMax : Nat := 448

/-- Ceiling of a bot's config. -/
abbrev maxConfigPayload : Nat :=
  maxBotEntries * globalLineMax + maxHubUserRecords * userLineMax + maxHubUserMasks * maskLineMax
    + userAccessRecordsMax + botSyncFields * botFieldLine + maxBots * blineMax + modesRecordsMax
    + payloadSlack

/-- Largest payload of a message. -/
abbrev maxBulkPayload : Nat := if maxConfigPayload > maxSyncPayload then maxConfigPayload
    else maxSyncPayload

abbrev maxQueuePerLane : Nat := 256
abbrev maxQueuedBytesPerPeer : Nat := 3 * maxBulkPayload
abbrev bulkSoftBudgetBps : Int := 32 * 1024
abbrev deltaHardBudgetBps : Int := 64 * 1024
abbrev queueDropLogEvery : Int := 60

inductive Lane
  | urgent | delta | bulk
  deriving Repr, DecidableEq

/-- The lanes in the order they are drained. -/
def Lane.all : List Lane := [.urgent, .delta, .bulk]

/-- A message on its way out, no larger than the bulk ceiling. -/
structure QueuedMsg where
  cmd : UInt8
  lane : Lane
  /-- Empty: never replaced. -/
  coalesceKey : Str := []
  lamportSeq : Nat := 0
  originHubUuid : Str := []
  payload : List UInt8
  fits : payload.length ≤ maxBulkPayload
  deriving DecidableEq

def QueuedMsg.new (cmd : UInt8) (lane : Lane) (payload : List UInt8) : Option QueuedMsg :=
  if h : payload.length ≤ maxBulkPayload
    then some { cmd := cmd, lane := lane, payload := payload, fits := h } else none

def QueuedMsg.setCoalesce (m : QueuedMsg) (originHubUuid : Str) (lamportSeq : Nat)
    (coalesceKey : Str) : QueuedMsg :=
  { m with originHubUuid := originHubUuid, lamportSeq := lamportSeq, coalesceKey := coalesceKey }

def QueuedMsg.len (m : QueuedMsg) : Nat := m.payload.length

structure QueueLane where
  msgs : List QueuedMsg := []
  bytes : Nat := 0
  deriving DecidableEq

/-- What happened to a message. -/
inductive QueueEvent
  /-- It went to the end of its lane. -/
  | queued (m : QueuedMsg)
  /-- It got the payload of another. -/
  | coalesced (old new : QueuedMsg)
  /-- It made room for another. -/
  | dropped (m : QueuedMsg)
  /-- It was taken off to be sealed. -/
  | left (m : QueuedMsg)
  /-- Its queue was destroyed. -/
  | destroyed (m : QueuedMsg)
  deriving DecidableEq

/-- A connection, as far as its queue goes. -/
structure OutQueue where
  fd : Int
  sock : Bool
  /-- A bot's frames carry their inner length in network order; the length of a frame is the
  same. -/
  writingCap : Nat
  outLanes : Lane → QueueLane := fun _ => {}
  outTotalBytes : Nat := 0
  /-- Length of the frame in flight, and how much of it is out. -/
  writingLen : Nat := 0
  writingOffset : Nat := 0
  bwWindowStart : Int := 0
  bwBytesInWindow : Int := 0
  writeWaitSince : Int := 0
  dropLogged : Int := 0
  dropUnlogged : Nat := 0
  cfgSentHash : Option Str := none
  treeSentHash : Option Str := none
  /-- Everything that happened to its messages. -/
  trace : List QueueEvent := []

namespace OutQueue

/-! ### Putting a message in -/

/-- A message with the payload of a newer one. -/
def replaced (cur m : QueuedMsg) : QueuedMsg :=
  { cur with payload := m.payload, lamportSeq := m.lamportSeq, originHubUuid := m.originHubUuid,
             fits := m.fits }

/-- Whether two messages stand for one thing. -/
def sameKey (m c : QueuedMsg) : Bool := !c.coalesceKey.isEmpty && c.coalesceKey == m.coalesceKey

/-- The first message of the key, and the lane with its payload replaced. -/
def coalesceInto (m : QueuedMsg) : List QueuedMsg → Option (QueuedMsg × List QueuedMsg)
  | [] => none
  | c :: rest =>
    if sameKey m c then some (c, replaced c m :: rest) else (coalesceInto m rest).map fun p =>
      (p.1, c :: p.2)

/-- A lane and the total after something happened to a message. -/
def account (c : OutQueue) (l : Lane) (x : QueueLane) (total : Nat) (e : QueueEvent) : OutQueue :=
  { c with outLanes := Function.update c.outLanes l x, outTotalBytes := total,
           trace := c.trace ++ [e] }

def hasPendingWrites (c : OutQueue) : Bool :=
  c.writingOffset < c.writingLen || Lane.all.any fun l => !(c.outLanes l).msgs.isEmpty

/-- A config or a tree that never reaches its bot does not stand as sent. -/
def cfgPushLost (c : OutQueue) (m : QueuedMsg) : OutQueue :=
  -- a config and a tree are sent again once they were dropped
  let c := if m.cmd = 0x58 then { c with treeSentHash := none } else c
  if m.cmd = 0x04 then { c with cfgSentHash := none } else c

/-- A message that made room: every drop counts, one in a while is logged. -/
def logDrop (c : OutQueue) (now : Int) : OutQueue :=
  if queueDropLogEvery ≤ now - c.dropLogged then { c with dropLogged := now, dropUnlogged := 0 }
  else { c with dropUnlogged := c.dropUnlogged + 1 }

/-- The oldest message of a lane goes. -/
def dropOldest (c : OutQueue) (l : Lane) (now : Int) : Except Fault OutQueue :=
  match (c.outLanes l).msgs with
  | [] => .ok c
  | old :: rest => do
    let bytes ← subUsize (c.outLanes l).bytes old.len
    let total ← subUsize c.outTotalBytes old.len
    return ((c.account l ⟨rest, bytes⟩ total (.dropped old)).logDrop now).cfgPushLost old

/-- A message at the end of its lane. -/
def pushBack (c : OutQueue) (m : QueuedMsg) (now : Int) : Except Fault OutQueue := do
  -- the wait of the socket starts with the first message
  let c := if c.hasPendingWrites then c else { c with writeWaitSince := now }
  let lane := c.outLanes m.lane
  let bytes ← addUsize lane.bytes m.len
  let total ← addUsize c.outTotalBytes m.len
  return c.account m.lane ⟨lane.msgs ++ [m], bytes⟩ total (.queued m)

/-- The lane with a payload replaced: the sizes differ. -/
def coalesce (c : OutQueue) (l : Lane) (old new : QueuedMsg) (msgs : List QueuedMsg) :
    Except Fault OutQueue := do
  -- the sums are checked as they are computed: added before they are taken off
  let sum ← addUsize (c.outLanes l).bytes new.len
  let bytes ← subUsize sum old.len
  let sum ← addUsize c.outTotalBytes new.len
  let total ← subUsize sum old.len
  return c.account l ⟨msgs, bytes⟩ total (.coalesced old (replaced old new))

/-- Whether the lane or the whole queue has no room for a message. The lane is looked at first. -/
def full (c : OutQueue) (m : QueuedMsg) : Except Fault Bool :=
  -- the number of messages, then the bytes
  if maxQueuePerLane ≤ (c.outLanes m.lane).msgs.length then .ok true
  else (addUsize c.outTotalBytes m.len).map fun wanted => decide (maxQueuedBytesPerPeer < wanted)

/-- Put a message on its lane. `false`: refused, and for an urgent one the connection is to
close. -/
def enqueue (c : OutQueue) (m : QueuedMsg) (now : Int) : Except Fault (OutQueue × Bool) :=
  -- the connection is closed
  if c.fd < 0 then .ok (c, false)
  else
    match (if m.coalesceKey.isEmpty then none else coalesceInto m (c.outLanes m.lane).msgs) with
    -- a message of that key waits: its payload is replaced in its place
    | some (old, msgs) => do
      let c ← c.coalesce m.lane old m msgs
      return (c, true)
    | none => do
      let full ← c.full m
      -- an urgent message is never dropped for another, and none is dropped for it
      if full then
        if m.lane = .urgent then return (c, false)
        else
          let c ← c.dropOldest m.lane now
          let c ← c.pushBack m now
          return (c, true)
      else
        let c ← c.pushBack m now
        return (c, true)

/-! ### Draining -/

/-- What the socket says to a send. -/
inductive SendOutcome
  | sent (n : Nat) (now : Int)
  | wouldBlock
  | error
  deriving Repr, DecidableEq

/-- The frame in flight is done with. -/
def clearWriting (c : OutQueue) : OutQueue := { c with writingLen := 0, writingOffset := 0 }

/-- `n` bytes went out. -/
def wrote (c : OutQueue) (n : Nat) (now : Int) : OutQueue :=
  -- a new second starts a new count
  let start := if c.bwWindowStart = now then c.bwBytesInWindow else 0
  { c with writingOffset := c.writingOffset + n, writeWaitSince := now, bwWindowStart := now,
           bwBytesInWindow := start + n }

/-- Sends what is in flight. `false`: no more can go out now. The socket blocks after the outcomes
that are listed. -/
def pushInFlight : List SendOutcome → OutQueue → OutQueue × Bool
  | outcomes, c =>
    -- the frame is out
    if c.writingLen ≤ c.writingOffset then (c.clearWriting, true)
    -- the socket is gone, and with it the frame
    else if !c.sock then (c.clearWriting, false)
    else
      match outcomes with
      | [] => (c, false)
      | .sent n now :: rest => if 0 < n then pushInFlight rest (c.wrote n now) else (c, false)
      | .wouldBlock :: _ => (c, false)
      | .error :: _ => (c.clearWriting, false)

/-- What happens while one message is taken off: the clock, whether sealing works, and the
sends. -/
structure SendTurn where
  now : Int
  sealed : Bool
  sends : List SendOutcome
  deriving Repr, DecidableEq

/-- The length of a message's frame on the wire: length prefix, IV, envelope, payload and tag. 0
when it is not sealed. -/
def encryptIntoWriting (c : OutQueue) (m : QueuedMsg) (sealed : Bool) : Nat :=
  let plain := 5 + m.len
  -- too long for a frame, or sealing failed
  if maxBulkPayload < m.len || c.writingCap < 4 + 12 + plain + 16 || !sealed then 0
    else 4 + (12 + plain) + 16

/-- A new second has a budget of its own. -/
def openWindow (c : OutQueue) (now : Int) : OutQueue :=
  if c.bwWindowStart = now then c else { c with bwWindowStart := now, bwBytesInWindow := 0 }

/-- Whether the budget of a lane is used up for now. -/
def overBudget (c : OutQueue) (l : Lane) : Bool :=
  (l = .bulk && bulkSoftBudgetBps < c.bwBytesInWindow)
  || (l = .delta && deltaHardBudgetBps < c.bwBytesInWindow)

/-- Takes the messages off a lane of at most `n`, from turn `i` on. The turn for the next lane,
`none` to stop. -/
def drainLane (turns : Nat → SendTurn) (l : Lane) : Nat → Nat → OutQueue →
    Except Fault (OutQueue × Option Nat)
  | 0, i, c => .ok (c, some i)
  | n + 1, i, c =>
    match (c.outLanes l).msgs with
    | [] => .ok (c, some i)
    | m :: rest =>
      let turn := turns i
      let c := c.openWindow turn.now
      -- the budget of this second is used up: the rest waits
      if c.overBudget l then .ok (c, none)
      else do
        let bytes ← subUsize (c.outLanes l).bytes m.len
        let total ← subUsize c.outTotalBytes m.len
        let c := c.account l ⟨rest, bytes⟩ total (.left m)
        let wireLen := c.encryptIntoWriting m turn.sealed
        -- the message is lost, and is not counted as sent
        if wireLen = 0 then drainLane turns l n (i + 1) (c.cfgPushLost m)
        else
          let (c, more) := pushInFlight turn.sends
            { c with writingLen := wireLen, writingOffset := 0 }
          if more then drainLane turns l n (i + 1) c else .ok (c, none)

-- as long as the socket takes all of a frame
/-- The lanes one after the other. -/
def drainLanes (turns : Nat → SendTurn) : List Lane → Nat → OutQueue → Except Fault OutQueue
  | [], _, c => .ok c
  | l :: rest, i, c => do
    let (c, next) ← drainLane turns l (c.outLanes l).msgs.length i c
    match next with
    | some i => drainLanes turns rest i c
    | none => return c

/-- The socket is writable: what is in flight first, then the lanes. -/
def drainWritable (c : OutQueue) (first : List SendOutcome) (turns : Nat → SendTurn) :
    Except Fault OutQueue :=
  if c.fd < 0 || !c.sock then .ok c
  else
    let (c, more) := pushInFlight first c
    if more then drainLanes turns Lane.all 0 c else .ok c

/-- Frees everything that waits. -/
def queueDestroy (c : OutQueue) : OutQueue :=
  { c with
    outLanes := fun _ => {}, outTotalBytes := 0, writingLen := 0, writingOffset := 0
    trace := c.trace ++ Lane.all.flatMap fun l => (c.outLanes l).msgs.map .destroyed }

/-! ### Runs -/

/-- What is done to a queue. -/
inductive QueueOp
  | enqueue (m : QueuedMsg) (now : Int)
  | drain (first : List SendOutcome) (turns : Nat → SendTurn)
  | destroy

def step (c : OutQueue) : QueueOp → Except Fault OutQueue
  | .enqueue m now => (c.enqueue m now).map (·.1)
  | .drain first turns => c.drainWritable first turns
  | .destroy => .ok c.queueDestroy

/-- A connection that was just accepted or dialled. -/
def new (fd : Int) (sock : Bool) (size : Nat) : OutQueue :=
  { fd := fd, sock := sock, writingCap := size + 64 }

def run (c : OutQueue) (ops : List QueueOp) : Except Fault OutQueue := ops.foldlM step c

end OutQueue

end IrcHub.Hub
