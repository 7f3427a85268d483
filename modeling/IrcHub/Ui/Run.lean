import IrcHub.Ui.Local

/-!
# `IrcHub.Ui.Run`: running a command line

Running a command line. A line becomes a command under a number (`Ui.startLine`), or waits its
turn (`Ui.runLine`). A command that is to be confirmed is staged and asked about, some after a
read that tells what the question is about (`Ui.readFirst`, `Ui.preReply`); the next line is the
answer (`Ui.confirmAnswer`). When a command is done the lines typed ahead go on
(`Ui.commandDone`).

- `Verdict`, `preVerdict`: what the answer to a read leads to: a question, or the end of the
  command. `botVerdict`, `peerVerdict`, `optVerdict` and `userVerdict` are its kinds
- `accepts`: whether a line answers a question with yes. Some questions take an exact word
- `runCommand`, `runBuilt`: a request that was built is sent, or staged for a confirmation
- `holdLine`, `runQueued`, `drain`: lines that wait, and those typed ahead whose turn it is
- `onReply`, `userReply`: a reply answers the oldest request

One command is in flight at most, besides the reads of views. Lines typed meanwhile are kept, up
to a number of them, and one that is refused by the command rate waits for its window.
-/

set_option autoImplicit false

namespace IrcHub.Console

open Terminal (Bytes)

/-! ### Questions -/

/-- What a read leads to: a question, or the end of the command. -/
inductive Verdict
  | ask (kind : Confirm) (want q : Bytes)
  | fail (code : String) (msg hint : Bytes)
  deriving Repr, DecidableEq

/-- The record of a bot or a hub that the question names. -/
def namedRecord (pre : Pre) (rep : Creply) : Option Crec :=
  match pre with
  | .botDel | .botKick => rep.r.find? (·.typ == b "bot")
  | .peerDel => rep.r.find? (·.typ == b "peer")
  | _ => none

/-- The request's payload: the uuid of the record that was read, else what the line says. -/
def namedPayload (pc : PendCmd) (rep : Creply) : Bytes :=
  match (namedRecord pc.pre rep).bind (·.rvs (b "uuid")) with
  | some u => if u.length < 1024 then u else pc.payload
  | none => pc.payload

/-- The question about a bot. -/
def botVerdict (pre : Pre) (r : Option Crec) (arg ell : Bytes) : Verdict :=
  let nick := (r.bind (·.rvs (b "nick"))).getD arg
  let on := r.any (·.rvb (b "online"))
  let here := on && r.bind (·.rv (b "hub")) == some (b "local")
  let id := (r.bind (·.rv (b "uuid"))).getD arg
  let u8s := cCut (id.take (uprec id 8) ++ ell) 16
  let hubName := (r.bind (·.rvs (b "hub_name"))).getD (b "another hub")
  if pre = .botDel then
    let what := b "Delete bot " ++ nick ++ b " (" ++ u8s ++ b ") for good? "
    .ask .yn [] (what ++
      if here then b "It is online on this hub: it wipes its config and exits. (y/N)"
      else if on then b "It is online on " ++ hubName ++ b
        ": it wipes its config and exits. (y/N)"
      else b "It is offline: it wipes its config if it ever connects. (y/N)")
  -- a bot can only be kicked by the hub it is on
  else if !here then
    .fail "bot.not_local" (cCut (nick ++ b " is not connected to this hub") 256)
      (cCut (if on then b "it is on " ++ hubName ++ b ": kick it there" else b "bot list") 256)
  else .ask .yn [] (b "Disconnect bot " ++ nick ++ b
    " from this hub? It will reconnect on its own. (y/N)")

/-- How many of something. -/
def plural (n : Nat) (one : String) : Bytes := num n ++ b one ++ (if n = 1 then [] else b "s")

/-- The question about a hub, and who still knows it. -/
def peerVerdict (rep : Creply) (arg : Bytes) : Verdict :=
  let others := rep.r.countP fun x => x.typ == b "hubref" && !x.rvb (b "self")
  let bots := rep.r.countP (·.typ == b "botref")
  -- the answer names no such hub: nothing is asked and nothing is sent
  match namedRecord .peerDel rep with
  | none =>
      .fail "peer.not_found" (cCut (b "no hub " ++ arg ++ b ": none with that uuid or name") 256)
      (b "hub list")
  | some t =>
    let name := ((t.rvs (b "name")).or (t.rvs (b "ip"))).getD arg
    let id := match t.rvs (b "uuid") with
      | some u => u.take 8
      | none => cCut ((t.rv (b "ip")).getD (b "?") ++ b ":" ++ numInt (t.rvi (b "port") 0)) 96
    -- nobody else has it: the short question
    if others = 0 ∧ bots = 0 then
      .ask .yn [] (b "Unlink " ++ name ++ b " (" ++ id ++ b
        ")? No other hub links to it and no bot lists it. (y/N)")
    else
      let who := if 0 < others
        ∧ 0 < bots then plural others " more hub" ++ b " and " ++ plural bots " bot"
        else if 0 < others then plural others " more hub" else plural bots " bot"
      .ask .yn [] (b "Unlink " ++ name ++ b " (" ++ id ++ b ") from this hub only? " ++ who ++ b
        " still list it. (y/N)")

def optMeaning (f : UInt8) : Bytes :=
  if f = 0x68 then b "hub-only mutation" else if f = 0x46 then b "config frozen"
    else b "unknown flag"

/-- One more flag that changes, while there is room; the second number counts what was asked
for. -/
def addChange (verb : String) (acc : Bytes × Nat) (p : UInt8) : Bytes × Nat :=
  let e := (if 0 < acc.2 then b "; " else []) ++ b verb ++ [p] ++ b ": " ++ optMeaning p
  -- no room left: the count of what was asked for still decides the brackets
  if acc.2 + 1 < 256 then (acc.1 ++ cCut e (256 - acc.2), acc.2 + e.length) else acc

/-- The letters and digits the hub will store, each once. -/
def newFlags (arg : Bytes) : Bytes :=
  -- what the hub would not store is not asked about
  arg.foldl (fun nf p => if nf.length + 1 < 64 && isAlnumByte p && !nf.contains p
    then nf ++ [p] else nf) []

def orNone (s : Bytes) : Bytes := if s.isEmpty then b "none" else s

/-- The question about the option flags. -/
def optVerdict (rep : Creply) (arg arrow : Bytes) : Verdict :=
  let cur := (rep.res.rv (b "flags")).getD []
  let nf := newFlags arg
  let added := (nf.filter fun p => !cur.contains p).foldl (addChange "adds ") ([], 0)
  let changes := (cur.filter fun p => !nf.contains p).foldl (addChange "removes ") added
  .ask .yn [] (b "Change flags " ++ orNone cur ++ b " " ++ arrow ++ b " " ++ orNone nf
    ++ (if 0 < changes.2 then b " (" else []) ++ changes.1
    ++ (if 0 < changes.2 then b ")" else []) ++ b "? (y/N)")

/-- The record of a user, and how many masks follow it. -/
def findUser (arg : Bytes) : List Crec → Option (Crec × Nat)
  | [] => none
  | r :: rest =>
    if r.typ == b "user" && (r.rv (b "name")).any (eqIc · arg) then
      -- its masks follow the user, up to the next one
      some (r, (rest.takeWhile fun x => x.typ != b "user").countP (·.typ == b "mask"))
    else findUser arg rest

/-- The question about a user. -/
def userVerdict (pre : Pre) (rep : Creply) (arg : Bytes) : Verdict :=
  match findUser arg rep.r with
  | none =>
      .fail "user.not_found" (cCut (b "no user called \"" ++ arg ++ b "\"") 256) (b "user list")
  | some (u, masks) =>
    let name := (u.rv (b "name")).getD arg
    let admin := u.rv (b "role") == some (b "admin")
    if pre = .userDel then
      let theirs := b " and their " ++ plural masks " mask"
      -- an admin is removed by typing the name
      if admin then
        .ask .type (cCut name 128)
          (b "Type " ++ name ++ b " to remove admin " ++ name ++ theirs ++ b ":")
      else .ask .yn [] (b "Remove oper " ++ name ++ theirs ++ b "? (y/N)")
    else
      .ask .yn [] (b "Replace " ++ name ++ b "'s key " ++ (u.rvs (b "fp")).getD (b "(none)") ++ b
        " with the new one?" ++ (if admin then b " Their open consoles close." else [])
        ++ b " (y/N)")

/-- What the answer to a read leads to. -/
def preVerdict (c : Ctx) (pc : PendCmd) (rep : Creply) : Verdict :=
  match pc.pre with
  | .botDel | .botKick => botVerdict pc.pre (namedRecord pc.pre rep) pc.arg (glyph c gEll)
  | .peerDel => peerVerdict rep pc.arg
  | .opt => optVerdict rep pc.arg (glyph c gArrow)
  | .userDel | .userKey => userVerdict pc.pre rep pc.arg
  | .upgStart => .ask .yn [] (b "Start the upgrade? (y/N)")
  | .none => .ask .yn [] (b "Go ahead? (y/N)")

/-- Whether a line answers a question with yes. -/
def accepts (kind : Confirm) (want answer : Bytes) : Bool :=
  match kind with
  | .yn => eqIc answer (b "y") || eqIc answer (b "yes")
  -- the word as it is, no folding of case
  | _ => answer == want

/-- The question about a command no read is made for, and the word it takes. -/
def directQuestion (hubname : Bytes) (op : UInt8) (payload : Bytes) (c : CmdDef)
    (args : List Bytes) (words : Bytes) :
    Confirm × Bytes × Bytes :=
  let a1 := args.getD 0 []
  let a2 := args.getD 1 []
  let a3 := args.getD 2 []
  let hn := if hubname.isEmpty then b "hub" else hubname
  -- new keys cut every link, so the name of the hub has to be typed
  if op = cmdAdminRegenKeys then (.type, cCut hn 128, b "Type " ++ hn ++ b " to go ahead:")
  else
    let q :=
      if op = cmdAdminPurgeTombstones then
        if eqIc a1 (b "now") then b "Purge every tombstone now, here and on all other hubs? (y/N)"
        else b "Purge tombstones older than " ++ a1 ++ b
          " days, here and on all other hubs? (y/N)"
      else if op = cmdAdminDelAllowlist || op = cmdAdminDelDenylist then
        b "Remove " ++ a2 ++ b " from the " ++ (if op = cmdAdminDelAllowlist then b "allow"
          else b "deny") ++ b " list? (y/N)"
      else if op = cmdAdminSetLogLevel then
        b "Set the " ++ (if payload.headD 0 ≠ 0 then b "console" else b "file") ++ b
          " log level to " ++ (match levelArg a2 with
            | some l => Ui.levelName l
            | none => a2) ++ b "? (y/N)"
      else if op = cmdAdminDelUsermask then b "Remove mask " ++ a3 ++ b " from " ++ a2
        ++ b "? (y/N)"
      else if op = cmdAdminDelChannel
        then b "Remove " ++ a1 ++ b " from every bot? They part it. (y/N)"
      else if op = cmdAdminUpgradeStatus && c.sub = some "abort" then
        b "Abort the running upgrade and roll back what it moved? (y/N)"
      else if op = cmdAdminUpgradeStatus && c.sub = some "forget" then
        b "Forget the roll-up plan here and on every hub? (y/N)"
      else b "Really " ++ words ++ b "? (y/N)"
    (.yn, [], q)

namespace Ui

/-! ### Asking -/

/-- Enter a confirmation: the next line answers it. -/
def askConfirm (s : Ui) (kind : Confirm) (want q : Bytes) : Ui :=
  let s := { s with confirming := kind, confirmWant := cCut want 128 }
  let what := What.asked s.confirmSeq kind (cCut want 128) q
  -- line mode prints the question, the full screen shows it in its own place
  if s.lineMode then s.lmLineOf what
    (cCut (b "[confirm #" ++ num s.confirmSeq ++ b "] " ++ q) consoleInputMax)
  else s.mark what

def stageConfirm (s : Ui) (seq : Nat) (op : UInt8) (payload : Bytes) (rq : PendingRq) : Ui :=
  { s with confirmSeq := seq, confirmOp := op, confirmPayload := payload, confirmRq := rq }

/-- Warning lines above a question. -/
def warnLines (lay : Layout) (s : Ui) (lines : List Bytes) : Ui :=
  -- a script is not warned
  if s.raw then s
  else
    emitFlines lay s (lines.zipIdx.map fun l =>
      fline (cCut (if l.2 = 0 then b " " ++ glyph s.ctx gWarn ++ b " " ++ l.1 else b "   " ++ l.1)
        300))

/-- The targets of `upgrade start`, for its plan. -/
def upgTargets (args : List Bytes) (pc : PendCmd) : PendCmd :=
  args.foldl (fun pc w =>
    match kvOpt w "bot", kvOpt w "hub", kvOpt w "nodes" with
    | some v, _, _ => { pc with arg := cCut v 256 }
    | none, some v, _ => { pc with hub := cCut (if v = b "-" then [] else v) 256 }
    | none, none, some v => { pc with nodes := cCut v 256 }
    | none, none, none => pc) pc

/-- The read a command's question needs: the staged command, the opcode and the payload. -/
def preRead (c : CmdDef) (args : List Bytes) (bt : Built) (rq : PendingRq) :
    PendCmd × UInt8 × Bytes :=
  let a1 := args.getD 0 []
  let pc : PendCmd :=
    { pre := c.pre, op := bt.op, payload := bt.payload, arg := cCut a1 256, rq := rq }
  match c.pre with
  | .botDel | .botKick => (pc, cmdAdminListFull, cCut a1 600)
  | .peerDel => (pc, cmdAdminPeerRefs, cCut a1 600)
  | .opt => ({ pc with arg := cCut (if a1 = b "-" then [] else a1) 256 }, cmdAdminGetOptFlags, [])
  | .userDel | .userKey => (pc, cmdAdminMatch, cCut a1 600)
  | .upgStart =>
    let pc := upgTargets args pc
    (pc, cmdAdminUpgradeStatus,
    cCut (b "releases|" ++ pc.arg ++ b "|" ++ pc.hub ++ b "|" ++ pc.nodes) 600)
  | .none => (pc, 0, [])

/-- Read first, so that the question names the object. -/
def readFirst (lay : Layout) (s : Ui) (c : CmdDef) (args : List Bytes) (bt : Built)
    (rq : PendingRq) : Ui :=
  -- the command waits in `pend` until its read came back
  let (pc, op, payload) := preRead c args bt rq
  sendRequest lay { s with pend := pc } op payload { rq with kind := .pre }

/-- Ask first; the next line answers. -/
def askFirst (lay : Layout) (s : Ui) (c : CmdDef) (args : List Bytes) (bt : Built)
    (rq : PendingRq) (words : Bytes) : Ui :=
  let s := s.stageConfirm rq.seq bt.op bt.payload rq
  let (kind, want, q) := directQuestion s.hubname bt.op bt.payload c args words
  let s := if bt.op = cmdAdminRegenKeys then
      s.warnLines lay [cCut (b "hub rekey makes a new identity for "
          ++ (if s.hubname.isEmpty then b "hub" else s.hubname) ++ b ".") 160,
        b ("Every hub and bot link drops now; each other hub runs hub set <uuid> key, each " ++
           "bot +hub with the new key."),
        b "Back up .irchub.cnf first: the old key is overwritten."]
    else s
  s.askConfirm kind want (cCut q (consoleInputMax - 64))

/-! ### A line -/

/-- What is wrong with the first words of a line, with a hint. -/
def unknownLine (ws : Words) : String × Bytes × Bytes :=
  let w0 := ws.get 0
  -- the first word is a command: what is wrong is the second
  if cmdKnownWord w0 then
    let m := if 2 ≤ ws.n then w0 ++ b " has no command " ++ (ws.get 1).take (uprec (ws.get 1) 40)
      else w0 ++ b " needs a command"
    ("cmd.usage", cCut m 128, cCut (b "help " ++ w0) 64)
  else ("cmd.unknown", cCut (b "unknown command \"" ++ w0.take (uprec w0 40) ++ b "\"") 128,
    b "help")

/-- The flag a line needs and this admin lacks. -/
def lacksFlag (flags : Option (List Char)) (need : Option Char) : Option Char :=
  need.filter fun f => flags.any fun fl => !fl.contains 'a' && !fl.contains f

/-- A request that was built: sent, or staged for a confirmation. -/
def runBuilt (lay : Layout) (s : Ui) (c : CmdDef) (args : List Bytes) (bt : Built)
    (words : Bytes) : Ui :=
  let rq : PendingRq := { kind := .user, seq := s.seq, words := words, mode := bt.mode }
  -- no question: sent at once
  if bt.confirm = .none then s.sendRequest lay bt.op bt.payload rq
  -- a question that has to name the object reads it first
  else if c.pre ≠ .none then s.readFirst lay c args bt rq
  else s.askFirst lay c args bt rq words

/-- A command whose number of arguments is right. -/
def runCommand (lay : Layout) (s : Ui) (c : CmdDef) (ws : Words) (argi : Nat) : Ui :=
  let words := cCut (cmdWords c) 32
  -- answered by the console itself, which checks the arguments there
  if c.build = .localCmd then s.localCommand lay c ws argi s.seq words
  else
    match buildPayload c ws argi with
    | .error (why, hint) => s.refuse lay s.seq "cmd.bad_arg" why (hint.map b)
    | .ok bt =>
      -- only told early: the hub checks the flag again
      match lacksFlag s.flags (uiFlagNeeded c ws argi) with
      | some f =>
        s.refuse lay s.seq "user.no_flag"
          (b "this needs +" ++ Terminal.encode [f] ++ b " (" ++ b (flagWord f) ++ b ")")
          (some (if f = 'a' then b "ask a full admin (+a)"
          else b "ask a full admin (+a) for the flag"))
      | none => s.runBuilt lay c (ws.args argi) bt words

/-- The line of a command without its slash. -/
def commandLine (line : Bytes) : Bytes := if line.head? = some 0x2F then line.tail else line

/-- A line under its number. -/
def runNumbered (lay : Layout) (s : Ui) (line : Bytes) : Ui :=
  let ws := splitLine (commandLine line)
  -- blanks only, or a slash alone
  if ws.n = 0 then s.refuse lay s.seq "cmd.empty" (b "empty command") none
  else if ws.more then s.refuse lay s.seq "cmd.usage" (b "too many words on one line") none
  else
    match findCmd ws with
    | none =>
      let (code, msg, hint) := unknownLine ws
      s.refuse lay s.seq code msg (some hint)
    | some (c, argi) =>
      let na := ws.n - argi
      -- the last argument of these two runs to the end of the line
      let restArg := (c.build = .localCmd ∧ c.sub = some "filter")
        ∨ (c.build = .ban ∧ c.sub = some "add")
      if na < c.nargs ∨ (¬restArg ∧ c.nargs + c.optargs < na) then
        s.refuse lay s.seq "cmd.usage" (cCut (b "usage: " ++ b c.usage) 160) none
      -- a bar would make a field of its own in the payload
      else if c.build ≠ .localCmd ∧ (ws.args argi).any (·.contains 0x7C) then
        s.refuse lay s.seq "cmd.bad_arg" (b "'|' is not allowed in an argument") none
      else s.runCommand lay c ws argi

/-- A line gets the next number and is run. -/
def startLine (lay : Layout) (s : Ui) (line : Bytes) : Ui :=
  -- the number is used up even where the line turns out to be wrong
  let s := { s with seq := s.seq + 1, ncmds := s.ncmds + 1 }
  runNumbered lay (s.mark (.started s.seq line s.rateStartMs s.nowMs)) line

/-- A line that waits. -/
def holdLine (s : Ui) (line : Bytes) : Ui :=
  -- beyond the queue a line is lost, and the operator is told
  if s.queued.length < maxQueuedLines
    then { s.mark (.typed line) with queued := s.queued ++ [line] }
  else s.note (b "busy: line dropped")

/-- A line from the prompt. Held lines go first. -/
def runLine (lay : Layout) (s : Ui) (line : Bytes) : Ui :=
  let line := line.dropWhile isBlank
  if line.isEmpty then s
  -- a line or a question is open: this one waits for it
  else if s.linePending then s.holdLine line
  else
    let (s, ok) := s.rateTake
    -- over the rate it waits for the window
    if ok then (s.mark (.typed line)).startLine lay line else s.holdLine line

/-- A line from those typed ahead, whose turn it is. -/
def runQueued (lay : Layout) (s : Ui) (line : Bytes) : Ui :=
  let line := line.dropWhile isBlank
  if line.isEmpty then s else s.rateTake.1.startLine lay line

/-! ### Answers -/

/-- A line was taken as the answer. `done` is what follows a command that ends here. -/
def confirmAnswer (lay : Layout) (done : Ui → Ui) (s : Ui) (answer : Bytes)
    (queued : Bool) : Ui :=
  let kind := s.confirming
  -- cleared before the answer is looked at: one question takes one line
  let s := { s.mark (.answered s.confirmSeq answer queued) with confirming := .none }
  if accepts kind s.confirmWant answer then
    -- the command as it was staged, not as it might be built now
    { s with confirmPayload := [] }.sendRequest lay s.confirmOp s.confirmPayload s.confirmRq
  else
    done { s.refuse lay s.confirmSeq "cmd.cancelled" (b "cancelled") none
      with confirmPayload := [] }

/-- A question was given up. -/
def confirmCancel (lay : Layout) (done : Ui → Ui) (s : Ui) : Ui :=
  let s := { s.mark (.cancelled s.confirmSeq) with confirming := .none }
  done { s.refuse lay s.confirmSeq "cmd.cancelled" (b "cancelled") none
    with confirmPayload := [] }

/-- The lines typed ahead, `n` of them at most: the next one answers a question a line before it
asked. -/
def drain (lay : Layout) : Nat → Ui → Ui
  | 0, s => s
  | n + 1, s =>
    -- a line that asked or was sent stops the draining
    if s.userBusy || s.closing then s
    else
      match s.queued with
      | [] => s
      | next :: rest =>
        if s.confirming = .none then
          -- over the rate the rest waits for the tick
          if s.rateReady then drain lay n (runQueued lay { s with queued := rest } next) else s
        else
          -- the drain goes on from inside the answer, since a refusal ends its command
          let done (s : Ui) := drain lay n { s with userBusy := false }
          drain lay n (confirmAnswer lay done { s with queued := rest } next true)

/-- The command in flight finished: the lines typed ahead, then the prompt where the core's answer
ended it. -/
def commandDone (lay : Layout) (s : Ui) (fromReply : Bool) : Ui :=
  let s := drain lay s.queued.length { s with userBusy := false }
  -- also with a question open: its prompt is the one to answer at
  if s.lineMode && fromReply && !s.userBusy && s.queued.isEmpty && !s.closing then
    (if s.confirming = .none then s.flushHeld else s).lmPrompt
  else s

/-! ### Replies -/

/-- A read came back: the question names the object, or the command ends here. -/
def preReply (lay : Layout) (s : Ui) (rq : PendingRq) (text : Bytes) : Ui :=
  let rep := creplyParse text
  let s := s.mark (.readBack rq.seq text)
  -- the read failed, so the command ends without a question
  if rep.err || !rep.ok then
    let s := s.showReply lay text rq.words .normal
    (s.markerErr rq.seq (cCut rep.code 64)
    (cCut ((rep.res.rv (b "msg")).getD (b "failed")) 320)).commandDone lay true
  else
    let pc := s.pend
    -- the object as the answer named it, so a short name cannot reach another one
    let s := s.stageConfirm rq.seq pc.op (namedPayload pc rep) pc.rq
    match preVerdict s.ctx pc rep with
    -- the answer shows that the command makes no sense
    | .fail code msg hint => (s.refuseHub lay rq.seq code msg hint).commandDone lay true
    | .ask kind want q =>
      let s := if pc.pre = .peerDel then s.showReply lay text rq.words .normal
        else if pc.pre = .upgStart && !s.raw then emitFlines lay s (lay.plan s pc rep) else s
      (s.askConfirm kind want (cCut q (consoleInputMax - 64))).commandDone lay true

/-- The reply to a command. -/
def userReply (lay : Layout) (s : Ui) (rq : PendingRq) (text : Bytes) : Ui :=
  let rep := creplyParse text
  let s := s.showReply lay text rq.words rq.mode
  -- the marker tells scripts how the line ended
  let s := if rep.err then
      s.markerErr rq.seq (cCut rep.code 64) (((rep.res.rv (b "msg")).map (cCut · 320)).getD [])
    else s.markerOk rq.seq rq.words
  s.commandDone lay true

/-- A reply answers the oldest request. -/
def onReply (lay : Layout) (s : Ui) (text : Bytes) : Ui :=
  match s.rq with
  -- an answer nobody asked for
  | [] => s
  | rq :: rest =>
    let s := { s with rq := rest }
    match rq.kind with
    -- the views take their answers without a word on the console
    | .viewUpg => s
    | .viewStats => s
    | .pre => s.preReply lay rq text
    | .user => s.userReply lay rq text

end Ui

end IrcHub.Console
