import IrcHub.Ui.Session

/-!
# `IrcHub.Ui.Local`: the commands the console answers itself

The commands the console answers itself: `help`, `quit`, `log on` and `log off`, and `display`.
Each ends with its marker, as a command does that the core answers: `Ui.localCommand`.

- `display`: the session with its new setting, or why it stays. Without an argument it shows the
  settings (`displayShow`)
- `sessionLogPhrase`, `ringLevel`: what is shown of this session's log, and what the ring keeps
- `isHelpOn`: whether a row of the table is the command that `help <group> <command>` names

None of them sends a request, so none is in flight after its line. `log on` and `log off` send a
subscription, which has no reply.
-/

set_option autoImplicit false

namespace IrcHub.Console

open Terminal (Bytes)

namespace Ui

/-- Two digits at least. -/
def two (n : Nat) : Bytes := (if n < 10 then b "0" else []) ++ num n

def hms (secs : Nat) : Bytes :=
  two (secs / 3600) ++ b ":" ++ two (secs / 60 % 60) ++ b ":" ++ two (secs % 60)

/-- A setting's old and new value. -/
def changed (name was now : Bytes) : Bytes := name ++ b "   " ++ was ++ b " → " ++ now

def levelName (l : Nat) : Bytes := b (levelWord.getD l "?")

/-- A level that came from outside. -/
def levelNameInt (l : Int) : Bytes := if 0 ≤ l ∧ l ≤ 4 then levelName l.toNat else b "?"

/-- What the log ring keeps. -/
def ringLevel (st : Status) : Bytes :=
  if st.have_ = true ∧ 0 ≤ st.consolelevel ∧ st.consolelevel ≤ 4 then levelNameInt st.consolelevel
  else b "what its level says"

def onOff (on : Bool) : Bytes := if on then b "on" else b "off"

/-- What is shown of this session's log. -/
def sessionLogPhrase (s : Ui) : Bytes :=
  if s.logOn then levelName s.logSubLevel ++ b " and worse (log on)"
    else b "off (log on [level] streams it here)"

/-- The settings of a session in line mode. -/
def displayShow (s : Ui) : List Bytes :=
  title s.ctx (b "Display") (cCut (b "line mode " ++ num s.outWidth) 64)
    ++ [cardLine 9 (b "glyphs") (if s.ascii then b "ascii" else b "unicode"),
      cardLine 9 (b "format") (if s.raw then b "raw" else b "pretty"),
      cardLine 9 (b "width") (if s.widthSet.isNone then b "auto (" ++ num s.outWidth ++ b ")"
        else num s.outWidth),
      cardLine 9 (b "events") (onOff s.eventsOn),
      cardLine 9 (b "colors") (b "off (line mode)"),
      cardLine 9 (b "log") (cCut s.sessionLogPhrase 192)]

/-- Whether a row of the table is the command `help <group> <command>` names. -/
def isHelpOn (a : Bytes) (a2 : Option Bytes) (d : CmdDef) : Bool :=
  eqIc a (b d.cmd) &&
    match d.sub with
    | some sub => a2.any (eqIc · (b sub))
    | none => a2.isNone

def localHelp (lay : Layout) (s : Ui) (ws : Words) (argi seq : Nat) (words : Bytes) : Ui :=
  let a1 := if argi < ws.n then some (ws.get argi) else none
  let a2 := if argi + 1 < ws.n then some (ws.get (argi + 1)) else none
  match a1 with
  | none => (emitFlines lay s (showHelp s.ctx s.lineMode none none)).markerOk seq words
  | some a =>
    if !cmdKnownWord a then
      s.refuse lay seq "cmd.unknown"
        (cCut (b "no command group \"" ++ a.take (uprec a 40) ++ b "\"") 96) (some (b "help"))
    else if a2.isSome || !cmdHasSubs a then
      match cmds.find? (isHelpOn a a2) with
      | none =>
        let x := a2.getD []
        s.refuse lay seq "cmd.unknown"
          (cCut (a ++ b " has no command " ++ x.take (uprec x 40)) 128)
          (some (cCut (b "help " ++ a) 64))
      | some d =>
          (emitFlines lay s (showHelp s.ctx s.lineMode (some a) (some d))).markerOk seq words
    else (emitFlines lay s (showHelp s.ctx s.lineMode (some a) none)).markerOk seq words

def localQuit (s : Ui) (seq : Nat) (words : Bytes) : Ui :=
  let dot := glyph s.ctx gDot
  let bye := b " Goodbye " ++ s.admin ++ b " " ++ dot ++ b " session "
    ++ cCut (hms (((s.nowMs - s.startMs) / 1000).toNat)) 32 ++ b " " ++ dot ++ b
      " " ++ num s.ncmds ++ b " command"
    ++ (if s.ncmds = 1 then [] else b "s")
  let s := if s.raw then s else s.note (cCut bye 160)
  { s.markerOk seq words with closing := true }

def localLog (lay : Layout) (s : Ui) (sub : String) (a1 : Option Bytes) (seq : Nat)
    (words : Bytes) : Ui :=
  if sub = "filter" then
    if s.lineMode then
      s.refuse lay seq "cmd.mode" (b "only in the full-screen console")
        (some (b "log on [level] in line mode"))
    else s.markerOk seq words
  else if !s.lineMode then
    s.refuse lay seq "cmd.mode" (b "the log is the Alt+2 view in the full-screen console") none
  else if sub = "on" then
    match (a1.map levelArg).getD (some 3) with
    | some (l + 1) =>
      let s := { s with logOn := true, logSubLevel := l + 1 }
      let s := s.localOk lay (b "Log stream on") (some (levelName (l + 1) ++ b " and worse"))
        (some (b "the ring keeps " ++ ringLevel s.st ++ b "; log off stops it"))
      s.subscribe.markerOk seq words
    | _ =>
        s.refuse lay seq "cmd.bad_arg" (b "level: error, warning, info or debug")
        (some (b "log on [level]"))
  else
    (({ s with logOn := false }).localOk lay (b "Log stream off") none none).subscribe.markerOk
    seq words

/-- The view a digit names. -/
def viewOfDigit (a : Bytes) : Option View :=
  if a = b "1" then some .console else if a = b "2" then some .log else if a = b "3"
    then some .network
  else if a = b "4" then some .upgrades else if a = b "5" then some .stats else none

/-- `display`: the session with its new setting, or why it stays. -/
def display (lay : Layout) (s : Ui) (sub : String) (a1 : Bytes) : Except (Bytes × Bytes) Ui :=
  let shown (s : Ui) (subject : Bytes) := s.localOk lay (b "Display") (some subject) none
  if sub = "show" then .ok (emitFlines lay s (if s.lineMode then s.displayShow else []))
  else if sub = "view" then
    match viewOfDigit a1 with
    | some v => .ok { s with view := v }
    | none => .error (b "view 1-5", b "display view <1-5>")
  else if sub = "ascii" then
    let was := s.ascii
    let s := { s with ascii := !s.ascii }
    let name (ascii : Bool) := if ascii then b "ascii" else b "unicode"
    .ok (shown s (changed (b "glyphs") (name was) (name s.ascii)))
  else if sub = "format" then
    let name (raw : Bool) := if raw then b "raw" else b "pretty"
    let asked := if eqIc a1 (b "raw") then some true else if eqIc a1 (b "pretty")
      then some false else none
    match asked with
    | some raw =>
      let note := if raw then b " (records as the hub sends them)" else []
      .ok { shown s (changed (b "format") (name s.raw) (name raw ++ note)) with raw := raw }
    | none => .error (b "format: pretty or raw", b "display format pretty|raw")
  else if sub = "width" then
    let was := s.outWidth
    let auto := eqIc a1 (b "auto")
    if auto || (allDigits a1 && (consoleWidthMin : Int) ≤ atoi a1 && atoi a1 ≤ consoleWidthMax)
      then
      let s := { s with widthSet := if auto then none else some (atoi a1).toNat }
      .ok (shown s (changed (b "width") (num was)
        (num s.outWidth ++ (if auto then b " (auto)" else []))))
    else .error (b "width: 60-250 or auto", b "display width <60-250|auto>")
  else if sub = "events" then
    let asked := if eqIc a1 (b "on") then some true else if eqIc a1 (b "off")
      then some false else none
    match asked with
    | some on =>
      let was := s.eventsOn
      .ok (shown { s with eventsOn := on } (changed (b "events") (onOff was) (onOff on)))
    | none => .error (b "events: on or off", b "display events on|off")
  else .ok s

def localDisplay (lay : Layout) (s : Ui) (sub : String) (a1 : Option Bytes) (seq : Nat)
    (words : Bytes) : Ui :=
  if (sub = "view" || sub = "pane" || sub = "clear") && s.lineMode then
    s.refuse lay seq "cmd.mode" (b "only in the full-screen console") none
  else if (sub = "width" || sub = "events") && !s.lineMode then
    s.refuse lay seq "cmd.mode" (b "only in line mode") none
  else
    match s.display lay sub (a1.getD []) with
    | .error (msg, hint) => s.refuse lay seq "cmd.bad_arg" msg (some hint)
    | .ok s => s.markerOk seq words

def localCommand (lay : Layout) (s : Ui) (c : CmdDef) (ws : Words) (argi seq : Nat)
    (words : Bytes) : Ui :=
  let sub := c.sub.getD ""
  let a1 := if argi < ws.n then some (ws.get argi) else none
  if c.cmd = "help" then s.localHelp lay ws argi seq words
  else if c.cmd = "quit" then s.localQuit seq words
  else if c.cmd = "log" then s.localLog lay sub a1 seq words
  else if c.cmd = "display" then s.localDisplay lay sub a1 seq words
  else s.markerOk seq words

end Ui

end IrcHub.Console
