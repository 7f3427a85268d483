import IrcHub.Ui.Events

/-!
# `IrcHub.Ui.Keys`: typed bytes, timers, and a whole session

Typed bytes, timers, and a whole session. Typed bytes become keys (`Ui.inputByte`), keys edit the
input line, Enter gives the line away (`Ui.onEnter`). A session is a run of events from its start
(`Ui.run`): typed bytes, frames from the core, timers, and the writer taking what was written.

- `decodeSeq`, `seqComplete`, `csiEnd`: escape sequences, which may come in pieces. A sequence
  that is not complete is kept until the next byte
- `escByte`, `utf8Byte`, `plainByte`: one byte, by what came before it
- `prevChar`, `nextCharOff`: the cursor moves over whole characters
- `histUp`: the lines of the history, and after them the one that was being typed
- `releaseHeld`: lines held by the command rate go out as the window turns over
- `Ev`, `Ui.step`, `Ui.run`: what happens to a session, and a run

A paste has a sequence at its start and one at its end, and what is in between is text: a line end
or a tab in it becomes a blank, and other control bytes are dropped.

Left out: what moves on the full screen only (scrolling, panes, search, the pause of the log).
-/

set_option autoImplicit false

namespace IrcHub.Console

open Terminal (Bytes)

/-! ### Keys -/

inductive Key
  | none | char (cp : Nat) | enter | bs | tab | ctrl (cp : Nat) | up | down | left | right | home
      | «end» | del | pgUp
  | pgDn | f (n : Nat) | alt (cp : Nat) | altLeft | altRight | esc | pasteBegin | pasteEnd
  deriving Repr, DecidableEq

/-- The two numbers of a sequence. -/
def seqParams (s : Bytes) : Nat × Nat :=
  let p := s.foldl (fun (acc : Nat × Nat × Bool) c =>
    let next (p : Nat) := if p < 1000 then p * 10 + (c.toNat - 0x30) else p
    if isDigitByte c then (if acc.2.2 then (acc.1, next acc.2.1, true)
      else (next acc.1, acc.2.1, false))
    else if c = 0x3B then (acc.1, acc.2.1, true) else acc) (0, 0, false)
  (p.1, p.2.1)

/-- The keys of `ESC O` and their letters. -/
def ss3Key (c : UInt8) : Key :=
  if c = 0x41 then .up else if c = 0x42 then .down else if c = 0x43 then .right
    else if c = 0x44 then .left
  else if c = 0x48 then .home else if c = 0x46 then .end else if c = 0x50 then .f 1
    else if c = 0x51 then .f 2
  else if c = 0x52 then .f 3 else if c = 0x53 then .f 4 else if c = 0x4D then .enter else .none

/-- The keys of `ESC [ n ~`. -/
def tildeKey (p : Nat) : Key :=
  if p = 1 ∨ p = 7 then .home else if p = 4 ∨ p = 8 then .end else if p = 3 then .del
    else if p = 5 then .pgUp
  else if p = 6 then .pgDn else if 11 ≤ p ∧ p ≤ 15 then .f (p - 10) else if 17 ≤ p
    ∧ p ≤ 21 then .f (p - 11)
  else if p = 23 ∨ p = 24 then .f (p - 12) else if p = 200 then .pasteBegin else if p = 201
    then .pasteEnd else .none

/-- The key of a sequence, without its ESC. -/
def decodeSeq (s : Bytes) : Key :=
  let c0 := s.getD 0 0
  let c1 := s.getD 1 0
  if s.length < 2 then .none
  else if c0 = 0x4F then ss3Key c1
  else if c0 ≠ 0x5B then .none
  -- a function key of the Linux console has a second bracket
  else if s.length = 3 ∧ c1 = 0x5B then
    let c2 := s.getD 2 0
    if 0x41 ≤ c2 ∧ c2 ≤ 0x45 then .f (c2.toNat - 0x41 + 1) else .none
  else
    let (p1, p2) := seqParams ((s.drop 1).dropLast)
    let alt := p2 = 3 ∨ p2 = 4
    let fin := s.getLastD 0
    if fin = 0x43 then (if alt then .altRight else .right)
    -- a mouse report is taken and ignored
    else if fin = 0x44 then (if alt then .altLeft else .left)
    else if fin = 0x7E then tildeKey p1
    else if fin = 0x4D then .none
    else ss3Key fin

/-- Where a sequence of `ESC [` ends, from index `i` on: 0 not yet, -1 never. -/
def csiEnd : Nat → Bytes → Int
  | _, [] => 0
  | i, c :: rest =>
      -- a final byte ends it, and one that runs on too long is given up
      if 0x40 ≤ c ∧ c ≤ 0x7E then i + 1 else if 16 < i then -1 else csiEnd (i + 1) rest

/-- The length of a complete sequence, 0 if it is not complete yet, -1 if it never is. -/
def seqComplete (s : Bytes) : Int :=
  let c1 := s.getD 1 0
  if s.length < 2 then 0
  else if c1 = 0x5B then
    if 3 ≤ s.length ∧ s.getD 2 0 = 0x5B then (if 4 ≤ s.length then 4 else 0)
      else csiEnd 2 (s.drop 2)
  else if c1 = 0x4F then (if 3 ≤ s.length then 3 else 0)
  else 2

/-- The bytes of a code point. -/
def utf8Encode (cp : Nat) : Bytes :=
  if cp < 0x80 then [UInt8.ofNat cp]
  else if cp < 0x800 then [UInt8.ofNat (0xC0 + cp / 0x40), UInt8.ofNat (0x80 + cp % 0x40)]
  else if cp < 0x10000 then
    [UInt8.ofNat (0xE0 + cp / 0x1000), UInt8.ofNat (0x80 + cp / 0x40 % 0x40),
    UInt8.ofNat (0x80 + cp % 0x40)]
  else
    [UInt8.ofNat (0xF0 + cp / 0x40000), UInt8.ofNat (0x80 + cp / 0x1000 % 0x40),
    UInt8.ofNat (0x80 + cp / 0x40 % 0x40),
      UInt8.ofNat (0x80 + cp % 0x40)]

/-- Start of the character before an offset. -/
-- back over the continuation bytes, to where the character begins
def prevChar (s : Bytes) (at_ : Nat) : Nat := if at_ = 0 then 0 else backOver s at_ (at_ - 1)

/-- Start of the character after the one at an offset. -/
def nextCharOff (s : Bytes) (at_ : Nat) : Nat :=
  min (at_ + 1 + ((s.drop (at_ + 1)).takeWhile isCont).length) s.length

/-- Why a session ends. -/
inductive Why
  | clientClosed | closedByHub | badFrame | shuttingDown | linkError | quit | idleTimeout
  deriving Repr, DecidableEq

def Why.text : Why → String
  | .clientClosed => "client closed"
  | .closedByHub => "closed by the hub"
  | .badFrame => "bad frame from the hub"
  | .shuttingDown => "hub shutting down"
  | .linkError => "hub link error"
  | .quit => "quit"
  | .idleTimeout => "idle timeout"

namespace Ui

/-! ### The input line -/

def inInsert (s : Ui) (bytes : Bytes) : Ui :=
  -- a full line takes no more, whatever the key
  if consoleInputMax ≤ s.input.length + bytes.length then s
  else
    let s := { s with
      input := s.input.take s.inCur ++ bytes ++ s.input.drop s.inCur,
        inCur := s.inCur + bytes.length }
    -- line mode echoes what it stores; the full screen is redrawn
    if s.lineMode then s.emit .text bytes else s

def inDelete (s : Ui) (start stop : Nat) : Ui :=
  if stop ≤ start then s
  else
    { s with
      input := s.input.take start ++ s.input.drop stop
      -- the cursor stays on its character, or moves to the start of what was cut out of it
      inCur := if stop < s.inCur then s.inCur - (stop - start) else if start < s.inCur then start
        else s.inCur }

def inBackspace (s : Ui) : Ui :=
  if s.inCur = 0 then s
  else
    let s := s.inDelete (prevChar s.input s.inCur) s.inCur
    if s.lineMode then s.emit .text [0x08, 0x20, 0x08] else s

def inSet (s : Ui) (line : Bytes) : Ui :=
  let line := cCut line consoleInputMax
  { s with input := line, inCur := line.length }

def histAdd (s : Ui) (line : Bytes) : Ui :=
  -- a line equal to the last one is not kept twice
  if line.isEmpty || s.hist.getLast? = some line then s
  else { s with hist := (if s.hist.length = 100 then s.hist.drop 1 else s.hist) ++ [line] }

/-- The prompt is owed when nothing is pending; the event lines that were held come first. -/
def afterEnter (s : Ui) : Ui :=
  -- with a question open the held lines stay held and only the prompt is shown
  if s.lineMode && !s.closing && !s.userBusy && s.queued.isEmpty then
    (if s.confirming = .none then s.flushHeld else s).lmPrompt
  else s

def onEnter (lay : Layout) (s : Ui) : Ui :=
  let line := s.input
  let s := { s with input := [], inCur := 0, histPos := s.hist.length }
  let s := if s.lineMode then s.emit .text crlf else s
  -- in line mode nothing can be searched for, so this is a key of the full screen
  if s.searching then { s with searching := false }
  -- the line answers the question, and is no command
  else if s.confirming ≠ .none
    then (confirmAnswer lay (commandDone lay · false) s line false).afterEnter
  else if line.all isBlank then (if s.lineMode then s.lmPrompt else s)
  else
    let s := s.histAdd line
    (runLine lay { s with histPos := s.hist.length } line).afterEnter

def cancelInput (lay : Layout) (s : Ui) : Ui :=
  -- shown before anything is cleared, so the operator sees what was given up
  let s := if s.lineMode then s.emit .text (b "^C" ++ crlf) else s
  let s := { s with input := [], inCur := 0 }
  let s := if s.searching then { s with searching := false }
    else if s.confirming ≠ .none then confirmCancel lay (commandDone lay · false) s
    else s
  -- with a line still pending the prompt comes after it
  if s.lineMode && !s.linePending then s.flushHeld.lmPrompt else s

/-! ### Keys of line mode and of the full screen -/

def lineKey (lay : Layout) (s : Ui) (k : Key) : Ui :=
  match k with
  | .char cp => s.inInsert (utf8Encode cp)
  | .enter => s.onEnter lay
  | .bs => s.inBackspace
  | .tab => s.inInsert [0x20]
  | .ctrl cp =>
    if cp = 0x63 then s.cancelInput lay
    -- end of input on an empty line leaves
    else if cp = 0x64 ∧ s.input = [] then ((s.inSet (b "quit")).emit .text (b "quit")).onEnter lay
    else s
  | _ => s

def setView (s : Ui) (v : View) (nowMs : Int) : Ui :=
  let s := { s with view := v }
  -- these two views show answers of the hub, so they are asked for at once
  if v = .upgrades then s.requestView .viewUpg nowMs
  else if v = .stats then s.requestView .viewStats nowMs
  else s

def viewNext : View → View
  | .console => .log
  | .log => .network
  | .network => .upgrades
  | .upgrades => .stats
  | .stats => .console

def viewPrev : View → View
  | .console => .stats
  | .log => .console
  | .network => .log
  | .upgrades => .network
  | .stats => .upgrades

/-- Up and Down: the lines of the history, and after them the one that was being typed. -/
def histUp (s : Ui) : Ui :=
  if s.histPos = 0 then s
  else
    -- only the first step up leaves the typed line
    let stash := if s.histPos = s.hist.length then cCut s.input consoleInputMax else s.histStash
    ({ s with histStash := stash, histPos := s.histPos - 1 }).inSet
    (s.hist.getD (s.histPos - 1) [])

def histDown (s : Ui) : Ui :=
  if s.hist.length ≤ s.histPos then s
  else
    ({ s with histPos := s.histPos + 1 }).inSet
      (if s.histPos + 1 = s.hist.length then s.histStash else s.hist.getD (s.histPos + 1) [])

/-- Ctrl and a letter on the full screen. -/
def screenCtrl (lay : Layout) (s : Ui) (cp : Nat) : Ui :=
  if cp = 0x63 then s.cancelInput lay
  else if cp = 0x75 then s.inDelete 0 s.inCur
  else if cp = 0x61 then { s with inCur := 0 }
  else if cp = 0x65 then { s with inCur := s.input.length }
  else if cp = 0x77 then
    -- the blanks before the cursor, then the word before them
    let word := ((s.input.take s.inCur).rdropWhile isBlank).rdropWhile (!isBlank ·)
    s.inDelete word.length s.inCur
  else s

def screenKey (lay : Layout) (s : Ui) (k : Key) (nowMs : Int) : Ui :=
  match k with
  | .char cp =>
    -- the log view takes some keys when nothing is typed
    let viewKey := s.input.isEmpty && !s.searching && s.confirming = .none && s.view = .log
    if viewKey && cp = 0x2F then { s with searching := true }
    else if viewKey && (cp = 0x20 || cp = 0x6E || cp = 0x4E) then s
    else s.inInsert (utf8Encode cp)
  | .enter => s.onEnter lay
  | .bs => s.inBackspace
  | .del =>
      if s.inCur < s.input.length then s.inDelete s.inCur (nextCharOff s.input s.inCur) else s
  | .left => if 0 < s.inCur then { s with inCur := prevChar s.input s.inCur } else s
  | .right =>
      if s.inCur < s.input.length then { s with inCur := nextCharOff s.input s.inCur } else s
  | .home => { s with inCur := 0 }
  | .end => { s with inCur := s.input.length }
  -- in the network view the arrows move over the rows
  | .up => if s.view = .network && s.input.isEmpty then s else s.histUp
  | .down => if s.view = .network && s.input.isEmpty then s else s.histDown
  | .tab => s.inInsert (lay.complete s)
  | .alt cp =>
    match viewOfDigit [UInt8.ofNat cp] with
    | some v => if cp < 0x80 then s.setView v nowMs else s
    | none => s
  | .altLeft => s.setView (viewPrev s.view) nowMs
  | .altRight => s.setView (viewNext s.view) nowMs
  | .esc => { s with searching := false }
  | .ctrl cp => s.screenCtrl lay cp
  | _ => s

def handleKey (lay : Layout) (s : Ui) (k : Key) (nowMs : Int) : Ui :=
  if s.lineMode then s.lineKey lay k else s.screenKey lay k nowMs

def feedChar (lay : Layout) (s : Ui) (cp : Nat) (nowMs : Int) : Ui :=
  -- inside a paste an end of line is a blank: a pasted text never sends a line
  s.handleKey lay (.char (if s.pasting && (cp = 0x0D || cp = 0x0A || cp = 0x09) then 0x20
    else cp)) nowMs

/-- The key of a sequence with its ESC. -/
def seqKey (s : Bytes) : Key :=
  if s.length = 2 then .alt (s.getD 1 0).toNat
  -- Alt with an arrow comes as a second ESC
  else if 3 ≤ s.length ∧ s.getD 1 0 = 0x1B then
    match decodeSeq (s.drop 2) with
    | .left => .altLeft
    | .right => .altRight
    | k => k
  else decodeSeq (s.drop 1)

def feedSeq (lay : Layout) (s : Ui) (seq : Bytes) (nowMs : Int) : Ui :=
  match seqKey seq with
  | .pasteBegin => { s with pasting := true }
  | .pasteEnd => { s with pasting := false }
  | .none => s
  | k => s.handleKey lay k nowMs

/-! ### Typed bytes -/

/-- A byte of a sequence that ESC began. -/
def escByte (lay : Layout) (s : Ui) (x : UInt8) (nowMs : Int) : Ui :=
  -- a sequence that is too long is given up below, so nothing past it is stored
  let s := { s with esc := if s.esc.length < 32 then s.esc ++ [x] else s.esc }
  let done : Int :=
    if 2 ≤ s.esc.length ∧ s.esc.getD 1 0 = 0x1B then
      if s.esc.length = 2 then 0
      else
        let inner := seqComplete (s.esc.drop 1)
        -- the inner sequence, with the ESC before it
        if 0 < inner then inner + 1 else inner
    else seqComplete s.esc
  if 0 < done then { s.feedSeq lay (s.esc.take done.toNat) nowMs with esc := [] }
  else if done < 0 ∨ 32 ≤ s.esc.length then { s with esc := [] }
  else s

/-- A byte of a character of several bytes. -/
def utf8Byte (lay : Layout) (s : Ui) (x : UInt8) (nowMs : Int) : Ui :=
  let u := s.utf8 ++ [x]
  -- how long the character is, by its first byte
  let need := if 0xF0 ≤ u.headD 0 then 4 else if 0xE0 ≤ u.headD 0 then 3 else 2
  if u.length = need then
    let cp := utf8Cp u need
    -- overlong forms and control characters are dropped
    let s := if utf8Len u = need ∧ ¬(0x80 ≤ cp ∧ cp ≤ 0x9F) then s.feedChar lay cp nowMs else s
    { s with utf8 := [] }
  -- the rest of the character has not come
  else { s with utf8 := u }

/-- A byte at the prompt. -/
def plainByte (lay : Layout) (s : Ui) (x : UInt8) (nowMs : Int) : Ui :=
  if x = 0x0D ∨ x = 0x0A then
    if s.pasting then s.feedChar lay 0x20 nowMs else s.handleKey lay .enter nowMs
  else if x = 0x7F ∨ x = 0x08 then s.handleKey lay .bs nowMs
  else if x = 0x09 then
    if s.pasting then s.feedChar lay 0x20 nowMs else s.handleKey lay .tab nowMs
  -- without a paste a tab completes the word
  else if x < 0x20 then (if s.pasting then s
    else s.handleKey lay (.ctrl (0x61 + x.toNat - 1)) nowMs)
  else if x < 0x80 then s.feedChar lay x.toNat nowMs
  -- a byte that can begin a character; any other is dropped
  else if 0xC2 ≤ x ∧ x ≤ 0xF4 then { s with utf8 := [x] }
  else s

/-- One typed byte, and whether a session that closes stops at it. -/
def inputByte (lay : Layout) (s : Ui) (x : UInt8) (nowMs : Int) : Ui × Bool :=
  -- a sequence or a character that has begun takes the byte
  if !s.esc.isEmpty then (s.escByte lay x nowMs, false)
  else if !s.utf8.isEmpty then (s.utf8Byte lay x nowMs, false)
  else if x = 0x1B then ({ s with esc := [x], escMs := nowMs }, false)
  else
    let wasCr := s.lastCr
    let s := { s with lastCr := x == 0x0D }
    -- CRLF is one Enter
    if x = 0x0A ∧ wasCr then (s, false) else (s.plainByte lay x nowMs, true)

def inputBytes (lay : Layout) (nowMs : Int) : Ui → Bytes → Ui
  | s, [] => s
  | s, x :: rest =>
    let (t, stops) := s.inputByte lay x nowMs
    -- the bytes after a quit are dropped
    if stops && t.closing then t else inputBytes lay nowMs t rest

def typeBytes (lay : Layout) (s : Ui) (data : Bytes) (nowMs : Int) : Ui :=
  inputBytes lay nowMs { s with lastInputMs := nowMs, nowMs := nowMs } data

/-! ### Timers -/

/-- Lines held by the command rate go out as the window turns over. -/
def releaseHeld (lay : Layout) (s : Ui) : Ui :=
  -- the rate is looked at before the line is taken, so it is not dropped here
  if !s.queued.isEmpty && !s.userBusy && s.confirming = .none && !s.closing && s.rateReady then
    let before := s.queued.length
    let s := s.commandDone lay false
    if s.lineMode && s.queued.length < before && !s.linePending && !s.closing
      then s.flushHeld.lmPrompt else s
  else s

/-- How many event lines were dropped, once there is room again. -/
def tellDropped (s : Ui) : Ui :=
  -- told only once half of the buffer is free again, not between two drops
  if 0 < s.dropped && s.termLen + s.backlog < consoleTermOutqMax / 2 then
    let n := s.dropped
    let s := { s with dropped := 0 }
    if s.lineMode then s.lmAsync (b "[evt drop] " ++ num n) else s
  else s

/-- The views that are refreshed while they are shown. -/
def refreshViews (s : Ui) (nowMs : Int) : Ui :=
  let s := if s.view = .upgrades && 10000 ≤ nowMs - s.upgAt
    then s.requestView .viewUpg nowMs else s
  if s.view = .stats && 5000 ≤ nowMs - s.statsAt then s.requestView .viewStats nowMs else s

def tick (lay : Layout) (s : Ui) (nowMs nowS : Int) : Ui :=
  if !s.started then s
  else
    let s := { s with nowMs := nowMs, nowS := nowS }
    -- an ESC with nothing after it was the key itself
    let s := if !s.esc.isEmpty && 50 ≤ nowMs - s.escMs then
        { (if s.esc.length = 1 then s.handleKey lay .esc nowMs else s) with esc := [] }
      else s
    -- an idle session closes before a held line goes out
    if s.idleS * 1000 ≤ nowMs - s.lastInputMs && !s.closing then { s with closing := true }
    else
      let s := (s.releaseHeld lay).tellDropped
      if s.lineMode then s else s.refreshViews nowMs

end Ui

/-! ### A session -/

/-- How a session is opened. -/
structure Setup where
  lineMode : Bool
  cols : Int
  admin : Bytes
  ip : Bytes
  hubname : Bytes
  idle : Int
  cmdN : Int
  cmdS : Int
  /-- The version and build that the greeting names. -/
  version : Bytes
  nowMs : Int

/-- What happens to a session. -/
inductive Ev
  | typed (data : Bytes) (nowMs : Int)
  | frame (op : UInt8) (payload : Bytes) (nowMs nowS : Int)
  | tick (nowMs nowS : Int)
  | resize (cols : Int)
  /-- The session's writer took what was written, `backlog` bytes being on their way. -/
  | taken (backlog : Nat)
  | goodbye (why : Why)

namespace Ui

def colsOf (cols : Int) (old : Nat) : Nat := if 0 < cols ∧ cols < 1000 then cols.toNat else old

/-- The session's limits. -/
def setLimits (s : Ui) (idle cmdN cmdS : Int) : Ui :=
  -- too short an idle time leaves the one there was
  let s := if 60 ≤ idle then { s with idleS := idle } else s
  if 1 ≤ cmdN ∧ 1 ≤ cmdS then { s with cmdN := cmdN.toNat, cmdS := cmdS.toNat } else s

/-- The session before anything is written. -/
def new (c : Setup) : Ui :=
  ({ lineMode := c.lineMode, cols := colsOf c.cols 80, admin := sanitize c.admin 64,
     ip := sanitize c.ip 64,
     hubname := sanitize c.hubname 64 } : Ui).setLimits c.idle c.cmdN c.cmdS

/-- The greeting and the first prompt. -/
def start (c : Setup) : Ui :=
  let s := { new c with lastInputMs := c.nowMs, nowMs := c.nowMs, startMs := c.nowMs,
                        started := true }
  let s := s.subscribe
  let hub := if s.hubname.isEmpty then b "hub" else s.hubname
  let hello := b "irchub console " ++ c.version ++ b " · " ++ hub ++ b " · admin " ++ s.admin ++ b
    " from " ++ s.ip
  if s.lineMode then (s.lmLine (cCut hello 320)).lmPrompt else s

def goodbye (s : Ui) (why : Why) : Ui :=
  if s.lineMode then s.emit .text (cCut (crlf ++ b "[closed] " ++ b why.text ++ crlf) 128) else s

def step (lay : Layout) (s : Ui) : Ev → Ui
  | .typed data nowMs => s.typeBytes lay data nowMs
  | .frame op payload nowMs nowS => s.coreFrameIn lay op payload nowMs nowS
  | .tick nowMs nowS => s.tick lay nowMs nowS
  | .resize cols => { s with cols := colsOf cols s.cols }
  | .taken backlog => { s with termLen := 0, backlog := backlog }
  | .goodbye why => s.goodbye why

def run (lay : Layout) (c : Setup) (evs : List Ev) : Ui := evs.foldl (step lay) (start c)

end Ui

end IrcHub.Console
