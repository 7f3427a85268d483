import IrcHub.Hub.Cstr

/-!
# `IrcHub.Hub.ConnLimits`: the connection limits of a hub

The connection limits of `connlimits.rs`, which are set by `hub set ssh` and `hub set conn`: a
table of settings of one to three numbers, each with its range and its built-in value, and the
text they are shown, saved and loaded as.

* `connSets`: the table. The rows are in the order they are saved in, which is also the order they
  are loaded in
* `CSet.parseValue`, `fmtValue`: a value of `N`, `N:S` or `N:S:B` as text
* `connSet`: one `hub set`, which refuses a value out of its range
* `connLines`: the lines that are saved. A setting is saved only while it differs from its
  built-in
* `connReload`: the limits of a hub that starts with a config, line by line
* `connAfter`: the limits after some `hub set` commands

Two settings depend on each other: one address may not have more logins in progress than all
together have. `connSet` refuses the one that would be above the other, but not the change of the
other, and `connFix` lowers it after each line of the config. So the limits a hub runs with and
those it has after a restart can differ.

A `ConnCfg` is what it holds in each of its fields, so a slot of the table is a field.
-/

set_option autoImplicit false

namespace IrcHub.Hub

open Str
open String (utf8Len)

/-! ### The table -/

/-- The fields of the limits: logins in progress (all addresses, one address), consoles, login
time, refused keys, idle time, refused logins and new connections per window, block, command rate;
then what bots, peers and consoles share. -/
inductive ConnField
  | preauth | preauthip | sessions | grace | authtries | idle
  | authfailN | authfailS | connectN | connectS | block | cmdrateN | cmdrateS
  | perip | churnN | churnS | churnBlock | failN | failS | failBlock
  | startupsStart | startupsRate | startupsFull
  deriving Repr, DecidableEq

/-- The limits of a hub. -/
abbrev ConnCfg := ConnField → Int

/-- The built-ins. -/
def connDefaults : ConnCfg
  | .preauth => 8 | .preauthip => 2 | .sessions => 8 | .grace => 20 | .authtries =>
      3 | .idle => 1800
  | .authfailN => 3 | .authfailS => 3600 | .connectN => 6 | .connectS => 60 | .block => 300
  | .cmdrateN => 20 | .cmdrateS => 10 | .perip => 5 | .churnN => 30 | .churnS => 10
  | .churnBlock => 30 | .failN => 3 | .failS => 3600 | .failBlock => 300
  | .startupsStart => 20 | .startupsRate => 30 | .startupsFull => 50

/-- The two groups of settings. -/
inductive ConnGroup
  | ssh | conn
  deriving Repr, DecidableEq

def ConnGroup.name : ConnGroup → Str
  | .ssh => "ssh".toList
  | .conn => "conn".toList

/-- One setting: its parts, their built-ins and ranges, and the range as errors show it. -/
structure CSet where
  group : ConnGroup
  name : Str
  slots : List ConnField
  defs : List Int
  lo : List Int
  hi : List Int
  range : Str
  deriving Repr, DecidableEq

/-- The settings, in the order they are saved in. -/
def connSets : List CSet :=
  [⟨.ssh, "preauth".toList, [.preauth], [8], [1], [64], "1 to 64".toList⟩,
    ⟨.ssh, "preauthip".toList, [.preauthip], [2], [1], [64], "1 to the preauth value".toList⟩,
    ⟨.ssh, "sessions".toList, [.sessions], [8], [1], [32], "1 to 32".toList⟩,
    ⟨.ssh, "grace".toList, [.grace], [20], [5], [120], "5 to 120 seconds".toList⟩,
    ⟨.ssh, "authtries".toList, [.authtries], [3], [1], [6], "1 to 6".toList⟩,
    ⟨.ssh, "idle".toList, [.idle], [1800], [60], [86400], "60 to 86400 seconds".toList⟩,
    ⟨.ssh, "authfail".toList, [.authfailN, .authfailS], [3, 3600], [1, 1], [1000, 86400],
      "N:S, N 1 to 1000, S 1 to 86400".toList⟩,
    ⟨.ssh, "connect".toList, [.connectN, .connectS], [6, 60], [2, 1], [1000, 3600],
      "N:S, N 2 to 1000, S 1 to 3600".toList⟩,
    ⟨.ssh, "block".toList, [.block], [300], [30], [86400], "30 to 86400 seconds".toList⟩,
    ⟨.ssh, "cmdrate".toList, [.cmdrateN, .cmdrateS], [20, 10], [1, 1], [1000, 3600],
      "N:S, N 1 to 1000, S 1 to 3600".toList⟩,
    ⟨.conn, "perip".toList, [.perip], [5], [2], [64], "2 to 64".toList⟩,
    ⟨.conn, "churn".toList, [.churnN, .churnS, .churnBlock], [30, 10, 30], [2, 1, 30],
      [1000, 3600, 86400], "N:S[:B], N 2 to 1000, S 1 to 3600, B 30 to 86400".toList⟩,
    ⟨.conn, "authfail".toList, [.failN, .failS, .failBlock], [3, 3600, 300], [1, 1, 30],
      [1000, 86400, 86400], "N:S[:B], N 1 to 1000, S 1 to 86400, B 30 to 86400".toList⟩,
    ⟨.conn, "startups".toList, [.startupsStart, .startupsRate, .startupsFull],
     [20, 30, 50], [1, 1, 1],
      [100, 100, 100], "S:R[:F], S 1 to 100, R 1 to 100 (%), F 1 to 100".toList⟩]

/-- The setting of a name. -/
def findSet (group : ConnGroup) (name : Str) : Option CSet :=
  connSets.find? fun s => s.group = group && s.name == name

/-! ### Values -/

/-- What the limits hold for a setting. -/
def CSet.values (s : CSet) (c : ConnCfg) : List Int := s.slots.map c

/-- The parts of a setting as text, with a colon between them. -/
def fmtValue (v : List Int) : Str := List.intercalate [':'] (v.map ofInt)

/-- Strict `N`, `N:S` or `N:S:B`, each part inside its range. A two-part value of a three-part
setting keeps the current third part. -/
def CSet.parseValue (s : CSet) (input : Str) (cur : List Int) : Option (List Int) :=
  if input.isEmpty || utf8Len input > 40 then none
  else if (input.splitOn ':').length > 3 then none
  else
    match (input.splitOn ':').mapM fun p => parseUint p 1000000 with
    | none => none
    | some parts =>
      let out := if parts.length + 1 = s.slots.length && s.slots.length = 3
        then parts ++ cur.drop 2 else parts
      if out.length ≠ s.slots.length then none
      else if (out.zip (s.lo.zip s.hi)).all fun p => decide (p.2.1 ≤ p.1)
        && decide (p.1 ≤ p.2.2) then
        some out
      else none

/-- Write the parts into their slots. -/
def assign (c : ConnCfg) (slots : List ConnField) (v : List Int) : ConnCfg :=
  (slots.zip v).foldl (fun c p f => if f = p.1 then p.2 else c f) c

/-- The outcome of setting a value. -/
inductive SetResult
  | ok
  | unknown
  /-- The reason, as the console shows it. -/
  | bad (why : Str)
  deriving Repr, DecidableEq

/-- Set one value, `none` being the built-in. -/
def connSet (c : ConnCfg) (group : ConnGroup) (name : Str) (value : Option Str) :
    ConnCfg × SetResult :=
  match findSet group name with
  | none => (c, .unknown)
  | some s =>
    match value with
    | none => (assign c s.slots s.defs, .ok)
    | some v =>
      if v = "default".toList then (assign c s.slots s.defs, .ok)
      else
        match s.parseValue v (s.values c) with
        | none => (c, .bad (group.name ++ ' ' :: s.name ++ " takes ".toList ++ s.range))
        | some nv =>
          -- one address may not have more logins in progress than all together
          if group = .ssh && s.name = "preauthip".toList && decide (nv.headD 0 > c .preauth) then
            (c, .bad ("ssh preauthip takes 1 to ".toList ++ ofInt (c .preauth)
            ++ " (the preauth value)".toList))
          else (assign c s.slots nv, .ok)

/-! ### The config file -/

/-- A line body `name|value`. A line that is not valid changes nothing. -/
def connLoad (c : ConnCfg) (group : ConnGroup) (body : Str) : ConnCfg × Bool :=
  if utf8Len body ≥ 96 then (c, false)
  else
    match splitOnce '|' body with
    | none => (c, false)
    | some (n, v) =>
      if v = "default".toList then (c, false)
      else
        let p := connSet c group n (some v)
        (p.1, decide (p.2 = .ok))

/-- The line of a setting. -/
def connLine (s : CSet) (v : List Int) : Str :=
  s.group.name ++ '|' :: s.name ++ '|' :: fmtValue v ++ ['\n']

/-- Everything that differs from the built-ins. -/
def connLines (c : ConnCfg) : Str :=
  [ConnGroup.ssh, .conn].flatMap fun g =>
    (connSets.filter fun s => s.group = g && s.values c ≠ s.defs).flatMap fun s =>
    connLine s (s.values c)

/-- Make the combination coherent. -/
def connFix (c : ConnCfg) : ConnCfg := fun f =>
  if f = .preauthip then min (c .preauthip) (c .preauth) else c f

/-- One line of the config file, as far as the limits go. -/
def connConfigLine (c : ConnCfg) (line : Str) : ConnCfg :=
  if line.isEmpty then c
  else
    match (splitOnce '|' line).or (splitOnce ':' line) with
    | none => c
    | some (k, v) =>
      if k = ConnGroup.ssh.name then connFix (connLoad c .ssh v).1
      else if k = ConnGroup.conn.name then connFix (connLoad c .conn v).1
      else c

/-- The limits of a hub that starts with the config file. -/
def connReload (text : Str) : ConnCfg := (text.splitOn '\n').foldl connConfigLine connDefaults

/-- The limits after some `hub set` commands. -/
def connAfter (ops : List (ConnGroup × Str × Option Str)) : ConnCfg :=
  ops.foldl (fun c op => (connSet c op.1 op.2.1 op.2.2).1) connDefaults

end IrcHub.Hub
