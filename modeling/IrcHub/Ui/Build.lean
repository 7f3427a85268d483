import IrcHub.Ui.Tables
import Mathlib.Data.List.DropRight

/-!
# `IrcHub.Ui.Build`: a command line as a request

How a command line becomes a request to the core. A line is split into words (`splitLine`), the
first one or two name a command (`findCmd`), and the rest becomes the request's payload
(`buildPayload`). A command whose arguments pick the opcode settles the opcode and the
confirmation too.

- `Words`: the words of a line, each with the line from there on, since the last argument of many
  commands is the rest of the line
- `uiFlagNeeded`: the flag a line needs, as far as the console can tell. The core checks it again
- `Built`: the request and how its reply is laid out
- `BuildResult`: a request, or why there is none, with a hint
- `buildLimits`, `buildAcl`, `buildNetSet`: commands whose payload has a form of its own

A payload is bytes with a bar between its fields, cut to what its buffer takes (`Built.fit`). What
was typed is passed on as it is: that a name holds no bar is for the core to see.
-/

set_option autoImplicit false

namespace IrcHub.Console

open Terminal (Bytes)

def consoleInputMax : Nat := 1024

/-! ### Words -/

/-- The words of a line, each with the line from there on, and whether there were more. -/
structure Words where
  words : List (Bytes × Bytes)
  more : Bool
  deriving Repr, DecidableEq

def maxWords : Nat := 52

def isBlank (x : UInt8) : Bool := x == 0x20

/-- Up to `n` words, and what is left of the line. -/
def takeWords : Nat → Bytes → List (Bytes × Bytes) × Bytes
  | 0, s => ([], s)
  | n + 1, s =>
    let s := s.dropWhile isBlank
    if s.isEmpty then ([], [])
    else
      let (ws, left) := takeWords n ((s.dropWhile (!isBlank ·)).drop 1)
      ((s.takeWhile (!isBlank ·), s) :: ws, left)

def splitLine (line : Bytes) : Words :=
  let (ws, left) := takeWords maxWords (cCut line consoleInputMax)
  { words := ws, more := !(left.dropWhile isBlank).isEmpty }

def Words.n (ws : Words) : Nat := ws.words.length

def Words.get (ws : Words) (i : Nat) : Bytes := (ws.words.getD i ([], [])).1

/-- The line from a word on. -/
def Words.from (ws : Words) (i : Nat) : Bytes := (ws.words.getD i ([], [])).2

/-- The words from an index on. -/
def Words.args (ws : Words) (i : Nat) : List Bytes := (ws.words.drop i).map (·.1)

/-! ### Finding the command -/

/-- Whether a row is the one that two words name. -/
def isCmd (c : Bytes) (ws : Words) (d : CmdDef) : Bool :=
  eqIc c (b d.cmd) &&
    match d.sub with
    | some sub => 2 ≤ ws.n && eqIc (ws.get 1) (b sub)
    | none => true

/-- The command of a line, and the index of its first argument. -/
def findCmd (ws : Words) : Option (CmdDef × Nat) :=
  let c := if ws.get 0 = b "?" then b "help" else ws.get 0
  (cmds.find? (isCmd c ws)).map fun d => (d, if d.sub.isSome then 2 else 1)

def cmdKnownWord (w : Bytes) : Bool := cmds.any fun d => eqIc w (b d.cmd)

def cmdHasSubs (w : Bytes) : Bool := cmds.any fun d => d.sub.isSome && eqIc w (b d.cmd)

def cmdWords (d : CmdDef) : Bytes :=
  match d.sub with
  | some sub => b d.cmd ++ b " " ++ b sub
  | none => b d.cmd

def cmdFlag (d : CmdDef) : Option String := do
  let sub ← d.sub
  let row ← cmdFlags.find? fun r => r.1 == d.cmd && r.2.1 == sub
  return row.2.2

/-- The commands with a view form that needs no flag. -/
def cmdFlagDual (d : CmdDef) : Bool :=
  (d.cmd == "bot" && d.sub == some "set") || (d.cmd == "hub" && d.sub == some "set")
    || (d.cmd == "channel" && (d.sub == some "mode" || d.sub == some "set"))

/-- The flag a line needs, as far as the console can tell. -/
def uiFlagNeeded (c : CmdDef) (ws : Words) (argi : Nat) : Option Char :=
  let na := ws.n - argi
  let a0 := ws.get argi
  let a1 := ws.get (argi + 1)
  match c.sub with
  | none => none
  | some sub =>
    if c.cmd == "user" then
      if sub == "add" then
        if eqIc a0 (b "admin") then some 'a' else if eqIc a0 (b "oper") then some 'o' else none
      else if sub == "set" then if eqIc a1 (b "flags") then some 'a' else none
      else if sub == "chan" then some 'o'
      else none
    else if c.cmd == "bot" && sub == "set" then if 0 < na then some 'b' else none
    else if c.cmd == "hub" && sub == "set" then
      if na = 0 || (na = 1 && (eqIc a0 (b "ssh") || eqIc a0 (b "conn"))) then none else some 'h'
    else if c.cmd == "channel" && (sub == "mode" || sub == "set") then if 1 < na
      then some 'c' else none
    else (cmdFlag c).bind fun f => if f.length = 1 then f.toList.head? else none

def flagWord (f : Char) : String :=
  if f = 'a' then "full admin" else if f = 'b' then "bots" else if f = 'c' then "channels"
    else if f = 'h' then "hub"
  else if f = 'o' then "opers" else if f = 'u' then "upgrades" else "?"

/-! ### Arguments -/

def levelWord : List String := ["none", "error", "warning", "info", "debug"]

/-- A log level, by number or by name. -/
def levelArg (a : Bytes) : Option Nat :=
  match a with
  | [x] => if 0x30 ≤ x && x ≤ 0x34 then some (x.toNat - 0x30) else none
  | _ =>
      (levelWord.findIdx? fun w => eqIc a (b w)).or (if eqIc a (b "warn") then some 2 else none)

/-- The value of a `key=value` argument. -/
def kvOpt (arg : Bytes) (key : String) : Option Bytes :=
  let k := b key
  if k.length < arg.length && eqIc (arg.take k.length) k && arg[k.length]? == some 0x3D
  then some (arg.drop (k.length + 1)) else none

/-- How a reply is laid out. -/
inductive Mode
  | normal | hubSettings | limits
  deriving Repr, DecidableEq

/-- What a line's request is. -/
structure Built where
  payload : Bytes
  op : UInt8
  confirm : Confirm
  mode : Mode
  deriving Repr, DecidableEq

/-- A request, or why there is none, with a hint. -/
abbrev BuildResult := Except (Bytes × Option String) Built

def bad (why : String) (hint : Option String) : BuildResult := .error (b why, hint)

def payloadCap : Nat := 1024

/-- A payload that fits. -/
def Built.fit (c : CmdDef) (bt : Built) (w : Bytes) : BuildResult :=
  if payloadCap ≤ w.length then bad "arguments too long" (some c.usage)
    else .ok { bt with payload := w }

def joinBars (args : List Bytes) : Bytes := (args.intersperse [0x7C]).flatten

/-- The tokens of `channel set`: a bar before each one. -/
def chanSetToks : List Bytes → Except (Bytes × Option String) Bytes
  | [] => .ok []
  | w :: rest =>
    if (w.head? = some 0x2B || w.head? = some 0x2D) && 1 < w.length then do
      let more ← chanSetToks rest
      return 0x7C :: lowerBytes (cCut w 96) ++ more
    else if eqIc w (b "flood") then
      match rest with
      | x :: y :: rest' => do
        let more ← chanSetToks rest'
        return 0x7C :: lowerBytes (cCut (b "flood " ++ x ++ b "=" ++ y) 96) ++ more
      | _ => .error (b "flood takes a type and a value",
          some ("channel set <#chan|default> flood <chan|ctcp|join|nick|deop|kick|ban> <N:S|" ++
                "off|default>"))
    else
      match rest with
      | v :: rest' => do
        let more ← chanSetToks rest'
        return 0x7C :: lowerBytes (cCut (w ++ b "=" ++ v) 96) ++ more
      | [] => .error (cCut (b "say a value for " ++ w.take (uprec w 40) ++ b " (or default)") 96,
          some "channel set <#chan|default> <name> <value|default>")

/-- The words after the mask of `ban add`: how long, sticky, and the index of the reason. -/
def banTerms (ws : Words) (i : Nat) : Option (Bytes × Bool × Nat) :=
  let timed := i < ws.n && (eqIc (ws.get i) (b "perm") || allDigits (ws.get i))
  let m := strtoull (ws.get i)
  if timed && allDigits (ws.get i) && (7 < (ws.get i).length || m < 1 || 5256000 < m) then none
  else
    let dur := if timed && allDigits (ws.get i) then num m else b "perm"
    let i := if timed then i + 1 else i
    let sticky := i < ws.n && eqIc (ws.get i) (b "sticky")
    some (dur, sticky, if sticky then i + 1 else i)

def buildBan (c : CmdDef) (ws : Words) (argi : Nat) (bt : Built) : BuildResult :=
  if c.sub = some "list" then bt.fit c (b "list|" ++ ws.get argi)
  else if c.sub = some "del" then bt.fit c (b "del|" ++ ws.get argi ++ b "|" ++ ws.get (argi + 1))
  else
    match banTerms ws (argi + 2) with
    | none => bad "a ban lasts 1 to 5256000 minutes (10 years), or perm" (some c.usage)
    | some (dur, sticky, i) =>
      let reason := if i < ws.n then (cCut (ws.from i) 256).rdropWhile isBlank else []
      if 120 < reason.length || reason.contains 0x7C then
        bad "a ban reason is at most 120 bytes and has no '|'" (some c.usage)
      else
        bt.fit c (b "add|" ++ ws.get argi ++ b "|" ++ ws.get (argi + 1) ++ b "|" ++ dur ++ b "|"
          ++ (if sticky then b "1" else b "0") ++ b "|" ++ reason)

/-- Four bytes, big end first. -/
def be32 (v : Nat) : Bytes :=
  [UInt8.ofNat (v / 2 ^ 24), UInt8.ofNat (v / 2 ^ 16), UInt8.ofNat (v / 2 ^ 8), UInt8.ofNat v]

def buildLogSet (c : CmdDef) (a0 a1 : Bytes) (bt : Built) : BuildResult :=
  if eqIc a0 (b "size") then
    let unit := 1 < a1.length && a1.length < 16 && (b "kKbB").contains (a1.getLastD 0)
    let mult := if !unit then 1024 * 1024 else if (b "kK").contains (a1.getLastD 0)
      then 1024 else 1
    let digits := if unit then a1.take (a1.length - 1) else cCut a1 16
    let v := if allDigits digits then strtoull digits * mult else 0
    if v < 1 || 1024 * 1024 * 1024 < v then
      bad "size: <MB>, <n>k or <n>b, at most 1024 MB" (some "log set size <MB|nk|nb>")
    else .ok { bt with payload := be32 v, op := cmdAdminSetLogSize, confirm := .none }
  else
    let target := if eqIc a0 (b "file") then some 0 else if eqIc a0 (b "console")
      then some 1 else none
    match target, levelArg a1 with
    | none, _ => bad "say file, console or size" (some c.usage)
    | some _, none => bad "level: none, error, warning, info, debug or 0-4" (some c.usage)
    | some t, some l =>
      .ok { bt with payload := [t, UInt8.ofNat l], op := cmdAdminSetLogLevel, confirm := .yn }

/-- The settings of `hub set`, with their opcodes. -/
def hubSettings : List (String × UInt8) :=
  [("name", cmdAdminSetHubName), ("bindip", cmdAdminSetBindIp), ("port", cmdAdminSetBindPort),
    ("pubkey", cmdAdminSetPubkey), ("autopurge", cmdAdminSetPurgeDays)]

/-- `hub set ssh` and `hub set conn`. -/
def buildLimits (c : CmdDef) (args : List Bytes) (conn : Bool) (bt : Built) : BuildResult :=
  let bt := { bt with op := cmdAdminSetSsh }
  match args with
  | [_] => .ok { bt with mode := .limits, payload := if conn then b "conn" else [] }
  | [_, x, y] =>
      .ok { bt with payload := lowerBytes ((if conn then b "conn|" else []) ++ x ++ b "|" ++ y) }
  | _ => bad (if conn then "usage: hub set conn <perip|churn|authfail|startups> <value|default>"
      else "usage: hub set ssh <name> <value|default>") (some c.usage)

def buildHubSet (c : CmdDef) (args : List Bytes) (bt : Built) : BuildResult :=
  match args with
  | [] => .ok { bt with op := cmdAdminGetPubkey, mode := .hubSettings }
  | a0 :: rest =>
    if eqIc a0 (b "ssh") || eqIc a0 (b "conn") then buildLimits c args (eqIc a0 (b "conn")) bt
    else
      let setting : BuildResult :=
        if 2 < args.length then bad "hub set takes a setting and one value" (some c.usage)
        else
          match hubSettings.find? fun h => eqIc a0 (b h.1) with
          | none =>
              .error (cCut (b "unknown hub setting \"" ++ a0.take (uprec a0 40) ++ b "\"") 96,
              some "name, bindip, port, pubkey, autopurge, ssh, conn, or <hub> key <key>")
          | some h =>
            match rest with
            | [] => bad "say the new value" (some c.usage)
            | v :: _ => Built.fit c { bt with op := h.2 } v
      match rest with
      | [k, v] =>
        if eqIc k (b "key") then
          if a0.contains 0x3A || v.contains 0x3A then bad "':' is not allowed in an argument here"
            (some c.usage)
          else Built.fit c { bt with op := cmdAdminSetPeerPubkey } (a0 ++ b ":" ++ v)
        else setting
      | _ => setting

/-- The options of `upgrade start`: bot, hub and nodes. -/
def upgStartOpts : List Bytes → Bytes × Bytes × Bytes → Option (Bytes × Bytes × Bytes)
  | [], acc => some acc
  | a :: rest, (bot, hub, nodes) =>
    match kvOpt a "bot", kvOpt a "hub", kvOpt a "nodes" with
    | some v, _, _ => upgStartOpts rest (v, hub, nodes)
    | none, some v, _ => upgStartOpts rest (bot, if v = b "-" then [] else v, nodes)
    | none, none, some v => upgStartOpts rest (bot, hub, v)
    | none, none, none => none

def buildUpgStart (c : CmdDef) (args : List Bytes) (bt : Built) : BuildResult :=
  match upgStartOpts args ([], [], []) with
  | none => bad "options: bot=<ver> hub=<ver> nodes=<list>" (some c.usage)
  | some (bot, hub, nodes) =>
    if bot.isEmpty then bad "say which bot version: bot=<ver> (upgrade releases lists them)"
      (some c.usage)
    else bt.fit c (bot ++ b "|||||" ++ hub ++ b "||" ++ nodes)

/-- `acl add` and `acl del`. -/
def buildAcl (c : CmdDef) (args : List Bytes) (a0 a1 : Bytes) (bt : Built) : BuildResult :=
  let add := c.sub = some "add"
  let op := if eqIc a0 (b "allow")
    then some (if add then cmdAdminAddAllowlist else cmdAdminDelAllowlist)
    else if eqIc a0 (b "deny")
      then some (if add then cmdAdminAddDenylist else cmdAdminDelDenylist) else none
  match op with
  | none => bad "say which list" (some c.usage)
  | some op =>
    if 3 < args.length || (args.length = 3 && !eqIc (args.getD 2 []) (b "console")) then
      bad "the only scope word is console" (some "acl add allow|deny <ip[/n]> [console]")
    else Built.fit c { bt with op := op } (if args.length = 3 then a1 ++ b "|console" else a1)

/-- The settings of `bot set`. -/
def buildNetSet (c : CmdDef) (args : List Bytes) (bt : Built) : BuildResult :=
  let no := bad ("bot set flood <cmd|msg|ctcp> <N:S|off|default>, ignoretime <min|default>, " ++
                 "or sendq <B:I|default>")
    (some c.usage)
  match args with
  | [] => .ok bt
  | [w, v] =>
    if eqIc w (b "ignoretime") then bt.fit c (lowerBytes (b "ignoretime|" ++ v))
    else if eqIc w (b "sendq") then bt.fit c (lowerBytes (b "sendq|" ++ v))
    else no
  | [w, x, y] =>
      if eqIc w (b "flood") then bt.fit c (lowerBytes (b "flood|" ++ x ++ b "|" ++ y)) else no
  | _ => no

/-- The request of a line. The opcode and the confirmation start as the table's. -/
def buildPayload (c : CmdDef) (ws : Words) (argi : Nat) : BuildResult :=
  let args := ws.args argi
  let a (i : Nat) : Bytes := args.getD i []
  let hint := some c.usage
  let bt : Built := { payload := [], op := c.op, confirm := c.confirm, mode := .normal }
  match c.build with
  | .none => .ok bt
  | .localCmd => .ok bt
  | .fixed => .ok { bt with payload := b c.fixed }
  | .arg => bt.fit c (a 0)
  | .pipe => bt.fit c (joinBars args)
  | .peerAdd =>
    if (args.take 5).any (·.contains 0x3A) then bad "':' is not allowed in an argument here" hint
    else bt.fit c (a 0 ++ b ":" ++ a 1 ++ b ":" ++ a 2 ++ b
      ":" ++ (if a 3 = b "-" then [] else a 3) ++ b ":" ++ a 4)
  | .hubShow =>
      if args.isEmpty then .ok bt else Built.fit c { bt with op := cmdAdminListPeers } (a 0)
  | .chanAdd => bt.fit c (a 0 ++ b "|" ++ a 1)
  | .chanSet =>
    match chanSetToks args.tail with
    | .error e => .error e
    | .ok toks => bt.fit c (a 0 ++ toks)
  | .chanModes => bt.fit c (joinBars args)
  | .ban => buildBan c ws argi bt
  | .netSet => buildNetSet c args bt
  | .chanOp => bt.fit c (a 1 ++ b "|" ++ a 0)
  | .optSet => bt.fit c (if a 0 = b "-" then [] else a 0)
  | .logSet => buildLogSet c (a 0) (a 1) bt
  | .purge =>
    if eqIc (a 0) (b "now") then bt.fit c (b "immediate")
    else if allDigits (a 0) && 0 < atoll (a 0) then bt.fit c (a 0)
    else bad "purge now, or purge <days>" hint
  | .hubSet => buildHubSet c args bt
  | .acl => buildAcl c args (a 0) (a 1) bt
  | .userList =>
    if args.isEmpty then Built.fit c { bt with op := cmdAdminListAdmins } (b "*")
    else if eqIc (a 0) (b "admin") then Built.fit c { bt with op := cmdAdminListAdmins } []
    else if eqIc (a 0) (b "oper") then Built.fit c { bt with op := cmdAdminListOpersV2 } []
    else bad "role is admin or oper" hint
  | .userAdd =>
    let payload := a 1 ++ b "|" ++ a 2 ++ b "|" ++ a 3 ++ b "|" ++ a 4
    if eqIc (a 0) (b "admin") then Built.fit c { bt with op := cmdAdminAddAdmin } payload
    else if eqIc (a 0) (b "oper") then Built.fit c { bt with op := cmdAdminAddOperRecord } payload
    else bad "role is admin or oper" hint
  | .userSet =>
    if eqIc (a 1) (b "flags") then
      Built.fit c { bt with op := cmdAdminUserAccess, confirm := .none }
        (b "flags|" ++ a 0 ++ b "|" ++ a 2)
    else if !eqIc (a 1) (b "key") then bad "unknown user setting" (some "settings: key, flags")
    else bt.fit c (a 0 ++ b "|" ++ a 2)
  | .userChan =>
    if eqIc (a 0) (b "add") then bt.fit c (b "chan|add|" ++ a 1 ++ b "|" ++ a 2)
    else if eqIc (a 0) (b "del") then bt.fit c (b "chan|del|" ++ a 1 ++ b "|" ++ a 2)
    else bad "say add or del" hint
  | .userMask =>
    if eqIc (a 0) (b "add") then
      Built.fit c { bt with op := cmdAdminAddUsermask, confirm := .none } (a 1 ++ b "|" ++ a 2)
    else if eqIc (a 0) (b "del") then
      Built.fit c { bt with op := cmdAdminDelUsermask, confirm := .yn } (a 1 ++ b "|" ++ a 2)
    else bad "say add or del" hint
  | .upgReleases => bt.fit c (b "releases")
  | .upgStart => buildUpgStart c args bt

end IrcHub.Console
