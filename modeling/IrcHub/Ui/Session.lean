import IrcHub.Ui.Help
import IrcHub.Ui.Reply

/-!
# `IrcHub.Ui.Session`: the state of a console session, and what it writes

The state of a console session, and what it writes. `Ui` is the session. What it writes to the
terminal and sends to the core is one list, in the order it is written (`Ui.trace`): the
terminal's bytes are those of the chunks, and each chunk says what it is.

- `Ui.lmLine`, `Ui.lmPrompt`, `Ui.lmAsync`, `Ui.flushHeld`: output in line mode
- `Ui.markerOk`, `Ui.markerErr`, `Ui.refuse`: the ends of a command
- `Ui.sendRequest`, `Ui.requestView`: requests, with what each was for (`Rq`), since replies come
  back in order
- `rateTake`: a token for a command, so many in a window of so many seconds
- `Layout`: what the session takes from the renderer of replies

In line mode a script reads the output, so every command ends with one marker and nothing but
lines stands before it. The prompt is written when the session waits for a line, and what arrives
then is written over it.

Left out: what the full screen shows (its lines are not part of the trace), the audit log, and of
the replies' pretty form everything but that it is lines (`Layout`).
-/

set_option autoImplicit false

namespace IrcHub.Console

open Terminal (Bytes)

/-! ### The session -/

/-- What a request in flight was for: replies come back in order. -/
inductive Rq
  | user | pre | viewUpg | viewStats
  deriving Repr, DecidableEq

/-- A request in flight: its command's number, its words, and how its reply is laid out. -/
structure PendingRq where
  kind : Rq := .user
  seq : Nat := 0
  words : Bytes := []
  mode : Mode := .normal
  deriving Repr, DecidableEq

/-- The command a read is made for, and what its question needs. -/
structure PendCmd where
  pre : Pre := .none
  op : UInt8 := 0
  payload : Bytes := []
  arg : Bytes := []
  hub : Bytes := []
  nodes : Bytes := []
  rq : PendingRq := {}
  deriving Repr, DecidableEq

/-- The mesh as the last status event has it. -/
structure Status where
  name : Bytes := []
  hubsUp : Int := 0
  hubsTotal : Int := 0
  botsOn : Int := 0
  botsTotal : Int := 0
  loglevel : Int := 0
  consolelevel : Int := 0
  have_ : Bool := false
  deriving Repr, DecidableEq

/-- What a chunk is. -/
inductive What
  /-- Text: an echo, a prompt, a line of output. -/
  | text
  /-- A command line came in and was kept. -/
  | typed (line : Bytes)
  /-- A line is run under a number, in a window of the command rate. -/
  | started (n : Nat) (line : Bytes) (window now : Int)
  /-- `[ok #n]` or `[err #n]`. -/
  | marker (n : Nat) (ok : Bool)
  /-- A question, and how it is to be answered. -/
  | asked (n : Nat) (kind : Confirm) (want q : Bytes)
  /-- A line was taken as the answer, from those typed ahead or from the prompt. -/
  | answered (n : Nat) (answer : Bytes) (queued : Bool)
  /-- A question was given up. -/
  | cancelled (n : Nat)
  /-- A request went to the core. -/
  | request (n : Nat) (kind : Rq) (op : UInt8) (payload : Bytes)
  /-- The answer to a read came. -/
  | readBack (n : Nat) (text : Bytes)
  /-- A subscription to events went to the core. -/
  | subscribed (payload : Bytes)
  /-- An event line came and was kept. -/
  | arrived (block : Bytes)
  /-- An event line. -/
  | event (block : Bytes)
  deriving Repr, DecidableEq

/-- One thing the session did: the terminal's bytes for it, and whether the raw format was on. -/
structure Chunk where
  what : What
  bytes : Bytes
  raw : Bool
  deriving Repr, DecidableEq

inductive View
  | console | log | network | upgrades | stats
  deriving Repr, DecidableEq

structure Ui where
  lineMode : Bool
  ascii : Bool := false
  cols : Nat := 80
  admin : Bytes := []
  ip : Bytes := []
  hubname : Bytes := []
  flags : Option (List Char) := none
  /-- Everything written so far, and how many bytes of it wait in `term` and in the SSH writer. -/
  trace : List Chunk := []
  termLen : Nat := 0
  backlog : Nat := 0
  input : Bytes := []
  inCur : Nat := 0
  hist : List Bytes := []
  histPos : Nat := 0
  histStash : Bytes := []
  esc : Bytes := []
  escMs : Int := 0
  pasting : Bool := false
  utf8 : Bytes := []
  lastCr : Bool := false
  seq : Nat := 0
  ncmds : Nat := 0
  userBusy : Bool := false
  rq : List PendingRq := []
  queued : List Bytes := []
  idleS : Int := 1800
  cmdN : Nat := 20
  cmdS : Nat := 10
  rateStartMs : Int := 0
  rateUsed : Nat := 0
  confirming : Confirm := .none
  confirmSeq : Nat := 0
  confirmWant : Bytes := []
  confirmOp : UInt8 := 0
  confirmPayload : Bytes := []
  confirmRq : PendingRq := {}
  pend : PendCmd := {}
  /-- Event lines that wait for a marker, a block for each event. -/
  held : List Bytes := []
  dropped : Nat := 0
  raw : Bool := false
  /-- The width that was set, `none` for `auto`. -/
  widthSet : Option Nat := some 0
  eventsOn : Bool := false
  greeted : Bool := false
  nowMs : Int := 0
  startMs : Int := 0
  /-- The wall clock, in seconds. -/
  nowS : Int := 0
  st : Status := { loglevel := -1, consolelevel := -1 }
  tree : Option Bytes := none
  upgAt : Int := 0
  statsAt : Int := 0
  lastUpg : Bytes := []
  logOn : Bool := false
  logSubLevel : Nat := 3
  view : View := .console
  searching : Bool := false
  lastInputMs : Int := 0
  started : Bool := false
  closing : Bool := false
  deriving Repr, DecidableEq

/-- What the session takes from the renderer: a reply's lines, the plan card of an upgrade, lines
broken at a width, and the text that Tab adds. -/
structure Layout where
  reply : Ui → Bytes → Bytes → Mode → List Bytes
  plan : Ui → PendCmd → Creply → List Bytes
  wrap : Ui → List Bytes → List Bytes
  complete : Ui → Bytes

namespace Ui

def maxPendingRq : Nat := 16
def maxQueuedLines : Nat := 256
def consoleTermOutqMax : Nat := 256 * 1024
def consoleLineWidth : Nat := 100
def consoleWidthMin : Nat := 60
def consoleWidthMax : Nat := 250
def consoleMinCols : Nat := 40

def crlf : Bytes := [0x0D, 0x0A]

/-! ### Output -/

def emit (s : Ui) (what : What) (bytes : Bytes) : Ui :=
  { s with trace := s.trace ++ [⟨what, bytes, s.raw⟩], termLen := s.termLen + bytes.length }

/-- Something the terminal sees nothing of. -/
def mark (s : Ui) (what : What) : Ui := s.emit what []

/-- A line of output, with what it is. -/
def lmLineOf (s : Ui) (what : What) (l : Bytes) : Ui :=
  s.emit what ((if s.ascii then Console.ascii l else l) ++ crlf)

def lmLine (s : Ui) (l : Bytes) : Ui := s.lmLineOf .text l

/-- The prompt and whatever is typed so far. -/
def lmPrompt (s : Ui) : Ui :=
  s.emit .text ((if s.confirming ≠ .none then b "? " else b "> ") ++ s.input)

/-- A command is in flight, or a typed line waits its turn. -/
def linePending (s : Ui) : Bool := s.userBusy || s.confirming ≠ .none || !s.queued.isEmpty

/-- The lines of an event's text, each with a line end. -/
def eventBlock (text : Bytes) : Bytes :=
  let lines := text.splitOn 0x0A
  ((if lines.getLast? = some [] then lines.dropLast else lines).map (· ++ crlf)).flatten

def heldLen (s : Ui) : Nat := s.held.flatten.length

/-- Something arrives at the prompt: over it, or held until the marker of the command in
flight. -/
def lmAsync (s : Ui) (text : Bytes) : Ui :=
  if consoleTermOutqMax < s.termLen + s.backlog + s.heldLen
    then { s with dropped := (s.dropped + 1) % 2 ^ 64 }
  else
    let block := eventBlock (if s.ascii then Console.ascii text else text)
    let s := s.mark (.arrived block)
    if s.linePending then { s with held := s.held ++ [block] }
    else (s.emit (.event block) (0x0D :: block)).lmPrompt

/-- The event lines that were held. -/
def flushHeld (s : Ui) : Ui :=
  s.held.foldl (fun s block => s.emit (.event block) block) { s with held := [] }

/-- The width output is laid out for in line mode. -/
def outWidth (s : Ui) : Nat :=
  match s.widthSet with
  | none => max consoleMinCols (min s.cols consoleWidthMax)
  | some n => if 0 < n then n else consoleLineWidth

def ctx (s : Ui) : Ctx := ⟨s.outWidth, s.ascii && s.lineMode⟩

def emitFlines (lay : Layout) (s : Ui) (f : List Bytes) : Ui :=
  let f := if s.raw then f else lay.wrap s f
  if s.lineMode then f.foldl lmLine s else s

/-- A note on the console's side. -/
def note (s : Ui) (text : Bytes) : Ui := if s.lineMode then s.lmLine text else s

/-- The records as the hub sent them, sanitized, one on a line. -/
def rawLines (text : Bytes) : List Bytes := (textLines text).map fun l =>
  fline (sanitize l (l.length + 2))

def showReply (lay : Layout) (s : Ui) (text words : Bytes) (mode : Mode) : Ui :=
  emitFlines lay s (if s.raw then rawLines text else lay.reply s text words mode)

/-! ### Markers -/

def markerOk (s : Ui) (seq : Nat) (words : Bytes) : Ui :=
  if s.lineMode then s.lmLineOf (.marker seq true)
    (cCut (b "[ok #" ++ num seq ++ b "] " ++ words) 96) else s

/-- The text of an error marker: the message, after its code in the raw format. -/
def errText (raw : Bool) (code msg : Bytes) : Bytes :=
  let m := if msg.isEmpty then code else msg
  if raw && !code.isEmpty then code ++ b ": " ++ m else m

def markerErr (s : Ui) (seq : Nat) (code msg : Bytes) : Ui :=
  if s.lineMode then
    s.lmLineOf (.marker seq false)
      (cCut (b "[err #" ++ num seq ++ b "] " ++ errText s.raw code msg) (consoleInputMax + 96))
  else s

/-- A refusal on the console's side. -/
def refuse (lay : Layout) (s : Ui) (seq : Nat) (code : String) (msg : Bytes)
    (hint : Option Bytes) : Ui :=
  let s := if !s.raw && code ≠ "cmd.cancelled" then emitFlines lay s (errorLines s.ctx msg hint)
    else s
  s.markerErr seq (b code) msg

/-- A value as the hub escapes it. -/
def escValue (val : Bytes) : Bytes :=
  (val.takeWhile (· != 0)).flatMap fun x =>
    if x = 0x25 then b "%25" else if x = 0x7C then b "%7C" else if x = 0x0A then b "%0A"
    else if x = 0x0D then b "%0D" else [x]

/-- A refusal of the hub's that the console found itself: in the raw format as the hub's
record. -/
def refuseHub (lay : Layout) (s : Ui) (seq : Nat) (code : String) (msg hint : Bytes) : Ui :=
  if !s.raw then s.refuse lay seq code msg (if hint.isEmpty then none else some hint)
  else
    let rec_ := b "err|" ++ b code ++ b "|msg=" ++ escValue msg
      ++ (if hint.isEmpty then [] else b "|hint=" ++ escValue hint)
    (emitFlines lay s (rawLines rec_)).markerErr seq (b code) msg

/-- The result of a command on the console's side. -/
def localOk (lay : Layout) (s : Ui) (what : Bytes) (subject effect : Option Bytes) : Ui :=
  if s.raw then s else emitFlines lay s (okLines s.ctx what subject effect)

/-! ### The command rate -/

/-- A token for a command: `cmdN` of them in a window of `cmdS` seconds. -/
def rateTake (s : Ui) : Ui × Bool :=
  let s := if (s.cmdS : Int) * 1000 ≤ s.nowMs - s.rateStartMs
    then { s with rateStartMs := s.nowMs, rateUsed := 0 } else s
  if s.cmdN ≤ s.rateUsed then (s, false) else ({ s with rateUsed := s.rateUsed + 1 }, true)

def rateReady (s : Ui) : Bool := (s.cmdS : Int) * 1000 ≤ s.nowMs - s.rateStartMs
    || s.rateUsed < s.cmdN

/-! ### Requests -/

/-- A subscription to events: line mode leaves the log out unless it is on. -/
def subscribe (s : Ui) : Ui :=
  s.mark (.subscribed (if s.lineMode then
      (if s.logOn then b "sub|status,tree,upg,log=" ++ num s.logSubLevel
      else b "sub|status,tree,upg")
    else b "sub|status,tree,upg,log=4,logreplay"))

def sendRequest (lay : Layout) (s : Ui) (op : UInt8) (payload : Bytes) (rq : PendingRq) : Ui :=
  if maxPendingRq ≤ s.rq.length then s.refuse lay rq.seq "cmd.busy"
    (b "too many requests in flight") none
  else { s.mark (.request rq.seq rq.kind op payload) with rq := s.rq ++ [rq], userBusy := true }

/-- A view is refreshed between commands only. -/
def requestView (s : Ui) (kind : Rq) (nowMs : Int) : Ui :=
  if s.userBusy || s.rq.any (·.kind = kind) || maxPendingRq ≤ s.rq.length then s
  else
    let s := { s with rq := s.rq ++ [(⟨kind, 0, [], .normal⟩ : PendingRq)] }
    if kind = .viewUpg
      then { s.mark (.request 0 kind cmdAdminUpgradeStatus []) with upgAt := nowMs }
    else { s.mark (.request 0 kind cmdAdminStats []) with statsAt := nowMs }

end Ui

end IrcHub.Console
