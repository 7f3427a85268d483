import IrcHub.Ui.Run

/-!
# `IrcHub.Ui.Events`: events from the core

Events from the core. They tell of the mesh: its state, its tree, an upgrade run, log lines. Line
mode shows each one as a line (`[evt status]`, `[evt tree]`, `[evt upg]`, `[log level]`); with
`display events on` what changed is said in words too.

- `TRow`, `cleanTree`: the rows of the tree, sanitized as they come in
- `treeEvents`: what changed between two trees, a line each: hubs that came up or went down, bots
  that connected, moved or disconnected
- `scanInt`, `scanPair`, `statusField`: the fields of a status event. What does not parse is left
  as it was
- `greetStatus`: what the mesh looks like, said once after the login
- `coreFrameIn`: a frame from the core, which is a reply or an event

An event never interrupts a line: it is written over the prompt, which is then written again, or
it is held while a command is in flight (`Ui.lmAsync` in `IrcHub.Ui.Session`).
-/

set_option autoImplicit false

namespace IrcHub.Console

open Terminal (Bytes)

/-! ### Trees -/

/-- A row of the tree: a hub, a bot, or a bot that is offline. -/
structure TRow where
  typ : UInt8
  depth : Int := 0
  name : Bytes := []
  uuid : Bytes := []
  online : Bool := false
  deriving Repr, DecidableEq

def treeRowMax : Nat := 256
def maxTrows : Nat := 1400

/-- A row's fields: nine of them, and the rest. -/
def splitN : Nat → Bytes → List Bytes
  | 0, _ => []
  | 1, s => [s]
  | n + 2, s =>
    if s.contains 0x7C then s.takeWhile (· != 0x7C) :: splitN (n + 1)
      ((s.dropWhile (· != 0x7C)).drop 1) else [s]

def parseRow (row : Bytes) : Option TRow :=
  let f := splitN 10 row
  let at_ (i : Nat) : Bytes := f.getD i []
  let typ := (at_ 0).headD 0
  if typ = 0x48 ∧ 9 ≤ f.length then
    some { typ := typ, depth := atoi (at_ 1), name := cutField (at_ 2) 64,
           uuid := cutField (at_ 3) 64,
           online := atoi (at_ 4) != 0 }
  else if typ = 0x42 ∧ 9 ≤ f.length then
    some { typ := typ, depth := atoi (at_ 1), name := cutField (at_ 2) 64,
           uuid := cutField (at_ 3) 64, online := true }
  else if typ = 0x44 ∧ 4 ≤ f.length then
    some { typ := typ, depth := 1, name := cutField (at_ 1) 64, uuid := cutField (at_ 2) 64 }
  else none

def parseTree (tree : Bytes) : List TRow :=
  (((tree.splitOn 0x0A).filter fun r => !r.isEmpty && r.length ≤ treeRowMax).filterMap
  parseRow).take maxTrows

/-- The rows, each with the nearest hub above it. -/
def withHubs : Bytes → List TRow → List (TRow × Bytes)
  | _, [] => []
  | h, r :: rest =>
    let h := if r.typ = 0x48 then r.name else h
    (r, h) :: withHubs h rest

/-- Hubs that came up or went down. -/
def hubChanges (c : Ctx) (old cur : List TRow) : List Bytes :=
  cur.filterMap fun (bj : TRow) =>
    if bj.typ ≠ 0x48 ∨ bj.depth < 1 then none
    else
      match old.find? fun ai => ai.typ == 0x48 && ai.uuid == bj.uuid && ai.name == bj.name with
      | none => none
      | some ai =>
        if ai.online = bj.online then none
        else some (cCut ((if bj.online then glyph c gOn else glyph c gWarn) ++ b
          " hub " ++ bj.name ++ (if bj.online then b " is up" else b " went down")) 256)

/-- Bots that connected or moved. -/
def botArrivals (c : Ctx) (old cur : List (TRow × Bytes)) : List Bytes :=
  cur.filterMap fun (bj : TRow × Bytes) =>
    if bj.1.typ ≠ 0x42 then none
    else
      match old.find? fun ai => ai.1.typ == 0x42 && ai.1.uuid == bj.1.uuid with
      | none =>
          some (cCut (glyph c gOn ++ b " bot " ++ bj.1.name ++ b " connected to " ++ bj.2) 256)
      | some ai =>
        if ai.2 = bj.2 then none
        else some (cCut (glyph c gOn ++ b " bot " ++ bj.1.name ++ b " moved from " ++ ai.2 ++ b
          " to " ++ bj.2) 256)

/-- Bots that disconnected. -/
def botDepartures (c : Ctx) (old cur : List (TRow × Bytes)) : List Bytes :=
  old.filterMap fun (ai : TRow × Bytes) =>
    if ai.1.typ ≠ 0x42 ∨ cur.any (fun bj => bj.1.typ == 0x42 && bj.1.uuid == ai.1.uuid) then none
    else some (cCut (glyph c gOff ++ b " bot " ++ ai.1.name ++ b " disconnected from " ++ ai.2)
      256)

/-- What changed between two trees, a line each. -/
def treeEvents (c : Ctx) (old cur : Bytes) : List Bytes :=
  let a := withHubs [] (parseTree old)
  let cs := withHubs [] (parseTree cur)
  hubChanges c (parseTree old) (parseTree cur) ++ botArrivals c a cs ++ botDepartures c a cs

/-- A tree with its rows sanitized. -/
def cleanTree (data : Bytes) : List Bytes :=
  -- the buffer has room for all of the data, so no row is cut
  (((data.splitOn 0x0A).filter (!·.isEmpty))).map fun row => sanitize row (data.length + 2)

/-! ### The status line -/

/-- A number at the start of a text, and what follows it. -/
def scanInt (v : Bytes) : Option (Int × Bytes) :=
  let (_, used) := Hub.strtoll (chars v)
  if used = 0 then none else some (atoi v, v.drop used)

/-- `a/b`: only what parses is taken. -/
def scanPair (v : Bytes) (old : Int × Int) : Int × Int :=
  match scanInt v with
  | none => old
  | some (x, rest) =>
    match rest with
    | c :: more => if c = 0x2F then (x, ((scanInt more).map (·.1)).getD old.2) else (x, old.2)
    | [] => (x, old.2)

/-- One `key=value` of a status event. -/
def statusField (st : Status) (f : Bytes) : Status :=
  if !f.contains 0x3D then st
  else
    let k := f.takeWhile (· != 0x3D)
    let v := (f.dropWhile (· != 0x3D)).drop 1
    if k = b "name" then { st with name := sanitize v 64 }
    else if k = b "hubs" then
      let p := scanPair v (st.hubsUp, st.hubsTotal)
      { st with hubsUp := p.1, hubsTotal := p.2 }
    else if k = b "bots" then
      let p := scanPair v (st.botsOn, st.botsTotal)
      { st with botsOn := p.1, botsTotal := p.2 }
    else if k = b "loglevel" then { st with loglevel := atoi v }
    else if k = b "consolelevel" then { st with consolelevel := atoi v }
    else st

namespace Ui

def parseStatus (s : Ui) (data : Bytes) : Ui :=
  let fields := ((cCut data 512).splitOn 0x7C).filter (!·.isEmpty)
  let st := fields.foldl statusField {}
  { s with st := { st with have_ := true }, hubname := if st.name.isEmpty then s.hubname
           else cCut st.name 64 }

/-- After the login: what the mesh looks like, once. -/
def greetStatus (s : Ui) : Ui :=
  if s.greeted then s
  else
    let s := { s with greeted := true }
    if s.raw || 0 < s.seq || !s.lineMode then s
    else
      let dot := glyph s.ctx gDot
      let l1 := b " hubs " ++ numInt s.st.hubsUp ++ b "/" ++ numInt s.st.hubsTotal ++ b " up "
        ++ dot ++ b " bots " ++ numInt s.st.botsOn ++ b "/" ++ numInt s.st.botsTotal ++ b
        " online " ++ dot ++ b " log file " ++ levelNameInt s.st.loglevel ++ b ", console "
        ++ levelNameInt s.st.consolelevel
      (s.lmAsync (cCut l1 256)).lmAsync (b " type help for commands")

/-! ### Events -/

/-- Whether changes are said in words. -/
def humanEvents (s : Ui) : Bool := !s.raw && (!s.lineMode || s.eventsOn)

def humanEvent (s : Ui) (text : Bytes) : Ui := if s.lineMode then s.lmAsync text else s

def userFlagLetters : List Char := "abchou".toList

/-- The flags of a `me` event. -/
def meFlags (data : Bytes) : List Char :=
  if (b "flags=").isPrefixOf data
    then ((chars (data.drop 6)).filter userFlagLetters.contains).take 6 else []

def statusEvent (s : Ui) (data : Bytes) : Ui :=
  let clean := sanitize data (data.length + 1)
  let s := s.parseStatus clean
  let s := if s.lineMode then s.lmAsync (cCut (b "[evt status] " ++ clean) (data.length + 32))
    else s
  s.greetStatus

/-- The block of lines a tree is shown as. -/
def treeBlock (rows : List Bytes) : Bytes :=
  b "[evt tree] begin " ++ num rows.length ++ [0x0A]
    ++ (rows.map fun row => b "[evt tree] " ++ row ++ [0x0A]).flatten ++ b "[evt tree] end"

def treeEvent (s : Ui) (data : Bytes) : Ui :=
  let rows := cleanTree data
  let tree := (rows.map (· ++ [0x0A])).flatten
  let s := if s.lineMode then s.lmAsync (treeBlock rows) else s
  let s := match s.tree with
    | some old => if s.humanEvents then (treeEvents s.ctx old tree).foldl humanEvent s else s
    | none => s
  { s with tree := some tree }

/-- The first four fields of an upgrade event, 63 bytes of each. -/
def upgFields (clean : Bytes) : List Bytes := ((clean.splitOn 0x7C).take 4).map (·.take 63)

def upgLine (clean : Bytes) : Bytes :=
  let f := upgFields clean
  let failed := f.getD 3 []
  b "upgrade " ++ f.getD 0 [] ++ b ": " ++ f.getD 2 [] ++ b " done (" ++ f.getD 1 [] ++ b ")"
    ++ (if 0 < atoi failed then b ", " ++ failed ++ b " failed" else [])

def upgEvent (s : Ui) (data : Bytes) (nowMs : Int) : Ui :=
  let clean := sanitize data 256
  let s := if s.lineMode then s.lmAsync (cCut (b "[evt upg] " ++ clean) 300)
    else if s.view = .upgrades then s.requestView .viewUpg nowMs else s
  let s := if s.humanEvents && clean ≠ s.lastUpg && !clean.isEmpty
    then s.humanEvent (cCut (upgLine clean) 300) else s
  { s with lastUpg := cCut clean 256 }

/-- The clock of a log line: HH:MM:SSZ. -/
def clockUtc (nowS : Int) : Bytes := hms (nowS % 86400).toNat ++ b "Z"

def logEvent (s : Ui) (data : Bytes) : Ui :=
  let level := data.takeWhile (· != 0x7C)
  if !data.contains 0x7C || 16 ≤ level.length then s
  else
    let clean := sanitize (data.drop (level.length + 1)) (512 + 8)
    let word := ((levelWord.drop 1).find? fun w => b w = level.takeWhile (· != 0)).getD "info"
    if !s.lineMode || !s.logOn then s
    else
      let head := if s.raw then b "[log " ++ b word ++ b "] "
        else b "[log " ++ b word ++ b " " ++ clockUtc s.nowS ++ b "] "
      s.lmAsync (cCut (head ++ clean) (512 + 48))

def onEvent (s : Ui) (payload : Bytes) (nowMs : Int) : Ui :=
  let topic := payload.takeWhile (· != 0x7C)
  let data := payload.drop (topic.length + 1)
  if !payload.contains 0x7C || 16 ≤ topic.length || topic.contains 0 then s
  else if topic = b "me" then { s with flags := some (meFlags data) }
  else if topic = b "status" then s.statusEvent data
  else if topic = b "tree" then s.treeEvent data
  else if topic = b "upg" then s.upgEvent data nowMs
  else if topic = b "log" then s.logEvent data
  else if topic = b "drop"
    then { s with dropped := (s.dropped + strtoull (data.take 23)) % 2 ^ 64 }
  else s

/-- A frame from the core: a reply or an event. -/
def coreFrameIn (lay : Layout) (s : Ui) (op : UInt8) (payload : Bytes) (nowMs nowS : Int) : Ui :=
  let s := { s with nowMs := nowMs, nowS := nowS }
  if op = consoleReply then s.onReply lay payload
  else if op = cmdConsole then s.onEvent payload nowMs
  else s

end Ui

end IrcHub.Console
