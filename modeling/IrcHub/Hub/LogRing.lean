import IrcHub.Hub.ParseUint
import IrcHub.Lib.Str
import Mathlib.Logic.Function.Basic

/-!
# `IrcHub.Hub.LogRing`: log lines on their way to a console

Log lines on their way to a console. `logAppend` puts a line into the ring, under a number of its
own. A console that subscribes to lines starts at the next one, or with `logreplay` at the oldest
(`subscribe`), and `pushLog` hands it what it has not had yet.

* `LogRing`: the ring, with the number of the next line
* `lines`, `ringOldest`: what the console command `get|log` shows of it
* `LogLink`: a console's place in the ring, the level it wants, and its output queue
* `pushLines`: the lines from a number on, each to a console that wants its level

A line can be lost to a console in two ways. The ring may have gone round before the console got
to it, and the console's output queue may have no room. Both are counted, in one counter
(`drops`).

A text is stored with the newlines inside it made spaces and the last one gone, so one line of the
ring is one line on the console.

Left out: topics other than the log, replies, and the report of the dropped lines.
-/

set_option autoImplicit false

namespace IrcHub.Hub

open Str

/-! ### The ring -/

abbrev consoleLogRing : Nat := 1024
abbrev consoleLogLineMax : Nat := 512
abbrev consoleCoreOutqMax : Nat := 1024 * 1024

/-- A line of the ring: `LogMeta` and its text. -/
structure LogLine where
  seq : Nat := 0
  level : Int := 0
  text : List UInt8 := []
  ts : Int := 0
  deriving Repr, DecidableEq

structure LogRing where
  /-- Without its mapping a ring takes no lines. -/
  mapped : Bool
  slots : Nat → LogLine := fun _ => {}
  /-- Sequence the next line gets. -/
  next : Nat := 1

namespace LogRing

def isNewline (b : UInt8) : Bool := b.toNat = 10 || b.toNat = 13

/-- One line: a newline inside becomes a space, the last one goes. -/
def slotText : List UInt8 → List UInt8
  | [] => []
  | [b] => if isNewline b then [] else [b]
  | b :: rest => (if isNewline b then 32 else b) :: slotText rest

/-- A line as it is kept. -/
def entry (seq : Nat) (level : Int) (line : List UInt8) (now : Int) : LogLine :=
  { seq := seq, level := max 1 (min level 4),
    text := slotText (line.take (consoleLogLineMax - 1)), ts := now }

def logAppend (r : LogRing) (level : Int) (line : List UInt8) (now : Int) : LogRing :=
  if !r.mapped then r
  else
    { r with
      slots := Function.update r.slots (r.next % consoleLogRing) (entry r.next level line now)
      next := r.next + 1 }

/-- The lines that the ring holds, as `get|log` counts them. -/
def lines (r : LogRing) : Nat := min (r.next - 1) consoleLogRing

/-- The time of the oldest line, as `get|log` reports it. -/
def ringOldest (r : LogRing) : Option Int :=
  if r.lines = 0 then none
  else
    let ts := if r.mapped then (r.slots ((r.next - r.lines) % consoleLogRing)).ts else 0
    if 0 < ts then some ts else none

end LogRing

/-- The word of a level. -/
def logLevelWord (level : Int) : String :=
  if level = 1 then "error" else if level = 2 then "warning" else if level = 4
    then "debug" else "info"

/-- What a console is told of a line. -/
def LogLine.data (l : LogLine) : List UInt8 :=
  (logLevelWord l.level).toUTF8.toList ++ 124 :: l.text

/-! ### The console's side -/

/-- A `ConsoleLink`, as far as log lines go. -/
structure LogLink where
  /-- Bytes that wait for the socket. -/
  queued : Nat := 0
  /-- -1: no log lines. -/
  logLevel : Int := -1
  logNext : Nat
  drops : Nat := 0
  /-- The events that the queue had no room for. -/
  refused : Nat := 0
  /-- The lines that were handed to the queue. -/
  logs : List (List UInt8) := []
  deriving Repr, DecidableEq

namespace LogLink

/-- An event of some bytes. One that the queue has no room for is dropped and counted. -/
def event (l : LogLink) (size : Nat) : LogLink :=
  let need := 5 + size
  if consoleCoreOutqMax < l.queued + need
    then { l with drops := l.drops + 1, refused := l.refused + 1 }
  else { l with queued := l.queued + need }

/-- The oldest line that `push_log` and `subscribe` go back to. -/
def oldest (next : Nat) : Nat := if consoleLogRing < next then next - consoleLogRing + 1 else 1

/-- The topics of a subscription that are about the log: the level, and whether the ring is
replayed. -/
def logTopics : List Str → Option UInt64 × Bool → Except Fault (Option UInt64 × Bool)
  | [], want => .ok want
  | t :: rest, (level, replay) =>
    if t = "logreplay".toList then logTopics rest (level, true)
    else do
      let n ← subscribeLog t
      logTopics rest (n.or level, replay)

/-- The level that a subscription asks for, and whether the ring is replayed. -/
def wanted (topics : Str) : Except Fault (Int × Bool) := do
  let (level, replay) ← logTopics (((trunc topics 255).splitOn ',').filter fun t => !t.isEmpty)
    (none, false)
  return ((level.map fun n => (n.toNat : Int)).getD (-1), replay)

/-- A `sub|` frame: it replaces the console's subscriptions. -/
def subscribe (next : Nat) (l : LogLink) (topics : Str) : Except Fault LogLink := do
  let (wantLog, replay) ← wanted topics
  let l := if 0 ≤ wantLog && l.logLevel < 0
    then { l with logNext := if replay then oldest next else next } else l
  return { l with logLevel := wantLog }

/-- A line of the ring to a console that wants its level. -/
def pushLine (r : LogRing) (l : LogLink) : LogLink :=
  let seq := l.logNext
  let slot := r.slots (seq % consoleLogRing)
  let l := { l with logNext := seq + 1 }
  if r.mapped && slot.seq = seq && slot.level ≤ l.logLevel then
    { l.event (4 + slot.data.length) with logs := l.logs ++ [slot.data] }
  else l

/-- The next lines of the ring, one after the other. -/
def pushLines (r : LogRing) : Nat → LogLink → LogLink
  | 0, l => l
  | n + 1, l => pushLines r n (pushLine r l)

/-- The lines a console has not had yet, from the oldest that the ring holds on. -/
def pushLog (r : LogRing) (l : LogLink) : LogLink :=
  if l.logLevel < 0 then { l with logNext := r.next }
  else
    let old := oldest r.next
    let l := if l.logNext < old
      then { l with drops := l.drops + (old - l.logNext), logNext := old } else l
    pushLines r (r.next - l.logNext) l

end LogLink

/-! ### Runs -/

structure LogState where
  ring : LogRing
  link : LogLink

inductive LogOp
  | append (level : Int) (line : List UInt8) (now : Int)
  /-- A console opens in place of the one before. -/
  | opened
  | subscribe (topics : Str)
  | push
  /-- An event of another topic, of so many bytes. -/
  | other (size : Nat)
  /-- The socket takes bytes. -/
  | drain (n : Nat)
  deriving Repr, DecidableEq

namespace LogState

def step (s : LogState) : LogOp → Except Fault LogState
  | .append level line now => .ok { s with ring := s.ring.logAppend level line now }
  | .opened => .ok { s with link := { logNext := s.ring.next } }
  | .subscribe topics => (s.link.subscribe s.ring.next topics).map fun l => { s with link := l }
  | .push => .ok { s with link := s.link.pushLog s.ring }
  | .other size => .ok { s with link := s.link.event size }
  | .drain n => .ok { s with link := { s.link with queued := s.link.queued - n } }

/-- A hub with a console that has just opened. -/
def new (mapped : Bool) : LogState := { ring := { mapped := mapped }, link := { logNext := 1 } }

def run (s : LogState) (ops : List LogOp) : Except Fault LogState := ops.foldlM step s

end LogState

end IrcHub.Hub
