import IrcHub.Hub.Cstr
import IrcHub.Hub.Link

/-!
# `IrcHub.Hub.Upgrade`: the hub that drives a network upgrade

The hub that drives a network upgrade, from `upgrade.rs`. A run asks every node to prepare, waits
for their answers, then commits them: bots in waves, then the peer hubs one at a time, this hub
last. Answers, results and presence come in as frames, everything else happens on the maintenance
tick.

- `PendingUpgrade`: the run and its table of nodes, `UpgradeNode` one row with its state
- `start`, `noteReady`, `noteResult`, `notePresence`, `abort` and `tick` are the steps of the
  driver
- `closePrepare`: the answers are in, or too late, and the plan is fixed
- `wave`, `nextHub`, `commitNode`, `commitSelf`: who is committed, and in which order
- `Commit`: a COMMIT that was sent, with the table at that moment
- `Driver`, `UpgradeEvent`, `Driver.step`: the driver over all events, with the COMMITs it sent

A row names a node by its uuid, and a node is asked once in a run. A frame is matched with a row
by the run's id and the uuid, and counts only where the row is in the state it is for. A node can
get seen back without a result, and a result can come without the node.

What the environment decides is an input of the step: the connections and whether a frame could be
queued on them, the candidates of a selection, whether this hub can take the build, the time. Left
out: replies to the console, the ABORT frames, the roll-up and the multi-step plan. A step of the
plan is a `start`; of the roll-up there is only the id whose frames it takes for itself.
-/

set_option autoImplicit false

namespace IrcHub.Hub

open Str
open String (utf8Len)

abbrev maxUpgradeNodes : Nat := 101
abbrev maxUpgradeSelect : Nat := 16
abbrev rosterVersionMax : Nat := 15
abbrev upgradeOpsGrace : Int := 240
abbrev upgradePrepareTimeout : Int := 45
abbrev upgradePrepareSettle : Int := 3
abbrev upgradeCommitTimeout : Int := 420
abbrev upgradeBotWaveMax : Nat := 4
abbrev upgradeBotWaveDivisor : Nat := 4

/-! ### The run -/

/-- Where a node of the run is. -/
inductive UpgradeNodeState
  /-- Asked, no answer yet. -/
  | pending
  /-- Answered ready, waiting for its turn. -/
  | ready
  /-- Does not take part. -/
  | unable
  /-- Told to commit, waiting for it to come back. -/
  | committed
  | done
  | failed
  deriving Repr, DecidableEq

inductive UpgradeNodeKind
  | bot | peerHub | selfHub
  deriving Repr, DecidableEq

inductive UpgradePhase
  | idle | prepare | rolling | done | failed | aborted
  deriving Repr, DecidableEq

/-- A node of the run. -/
structure UpgradeNode where
  uuid : Str
  name : Str := []
  kind : UpgradeNodeKind := .bot
  /-- The peer hub it is reached through. -/
  via : Str := []
  fd : Int := 0
  curVersion : Str := []
  variant : Str := []
  /-- The build a selective run asked for this node. -/
  wantVariant : Str := []
  notSelected : Bool := false
  arch : Str := []
  libc : Str := []
  state : UpgradeNodeState := .pending
  reason : Str := []
  committedAt : Int := 0
  /-- How many of its own bots a hub passed the question on to. -/
  relayed : Nat := 0
  /-- The order its answer came in, 0 before. -/
  readySeq : Nat := 0
  /-- When a committed bot was seen back, 0 before. -/
  backAt : Int := 0
  deriving Repr, DecidableEq

/-- The run this hub drives, or the last one. -/
structure PendingUpgrade where
  active : Bool := false
  id : Str := []
  targetVer : Str := []
  variant : Str := []
  kind : Str := []
  minFrom : Str := []
  hubVer : Str := []
  originFd : Int := 0
  started : Int := 0
  phaseStarted : Int := 0
  phase : UpgradePhase := .idle
  nodes : List UpgradeNode := []
  lastAdded : Int := 0
  readySeqNext : Nat := 0
  summary : Str := []
  select : List (Str × Str) := []
  selWire : Str := []
  deriving Repr, DecidableEq

/-! ### Texts -/

/-- Up to `n` pieces of a text, the last one with the bars that are left. -/
def splitn (c : Char) : Nat → Str → List Str
  | 0, _ => []
  | 1, s => [s]
  | n + 2, s =>
    match splitOnce c s with
    | none => [s]
    | some (a, rest) => a :: splitn c (n + 1) rest

/-- A number as the standard library reads it. -/
def parseUsize (s : Str) : Option Nat :=
  let digits := if s.head? = some '+' then s.tail else s
  if digits.isEmpty || !digits.all Char.isDigit then none
  else
    let n := digits.foldl (fun n c => n * 10 + (c.toNat - '0'.toNat)) 0
    if n < 2 ^ 64 then some n else none

/-- A text of a node as it may be passed on. -/
def clean (src : Str) (cap : Nat) : Str :=
  trunc (src.map fun c =>
    if c == '|' then '/' else if decide (c.toNat < 0x20) || c == '\x7f' then ' ' else c) cap

/-- The characters a version may not have. -/
def planChars : Str := ['|', ';', '&', '\x60', '$', ' ', '\t', '\r', '\n']

def planFieldOk (s : Str) : Bool := decide (utf8Len s < 512) && !s.any planChars.contains

/-- A version without the letter manifests put before it. -/
def stripVersionV : Str → Str
  | 'v' :: d :: rest => if d.isDigit then d :: rest else 'v' :: d :: rest
  | v => v

def stripV : Str → Str
  | 'v' :: rest | 'V' :: rest => rest
  | v => v

/-- Two texts from their first difference on. -/
def verDiff : Str → Str → Str × Str
  | a :: s, b :: t => if a = b then verDiff s t else (a :: s, b :: t)
  | s, t => (s, t)

/-- The order of versions: where they first differ the longer number is the greater. -/
def strverscmp (s t : Str) : Ordering :=
  match verDiff (untilNul s) (untilNul t) with
  | ([], []) => .eq
  | ([], _ :: _) => .lt
  | (_ :: _, []) => .gt
  | (a :: s, b :: t) =>
    -- two numbers: where both still run the one with more digits left is greater
    if a.isDigit && b.isDigit then
      (compare (s.takeWhile Char.isDigit).length (t.takeWhile Char.isDigit).length).then
        (compare a.toNat b.toNat)
    else compare a.toNat b.toNat

def versionCmp (a b : Str) : Ordering := strverscmp (stripV a) (stripV b)

/-- The oldest version that is served. -/
def meshMinVersion : Str := "2.5.1".toList

/-! ### The table of nodes -/

def findNode (u : PendingUpgrade) (uuid : Str) : Option Nat :=
  -- rows of nodes that have no uuid yet are never found by it
  if uuid.isEmpty then none else u.nodes.findIdx? fun n => n.uuid == uuid

/-- The nodes in a state, of one kind or of any. -/
def count (u : PendingUpgrade) (st : UpgradeNodeState) (kind : Option UpgradeNodeKind) : Nat :=
  u.nodes.countP fun n => n.state == st && kind.all (n.kind == ·)

/-- Whether the run moves a node, and the build it asked for. -/
def selected (u : PendingUpgrade) (uuid : Str) : Option Str :=
  -- an empty selection is the whole mesh
  if u.select.isEmpty then some []
  else (u.select.find? fun p => p.1 == uuid).map (·.2)

/-- The build a node is moved to. -/
def nodeVariant (u : PendingUpgrade) (n : UpgradeNode) : Str :=
  if n.wantVariant.isEmpty then u.variant else n.wantVariant

/-- The version a node is moved to. -/
def nodeTarget (u : PendingUpgrade) (n : UpgradeNode) : Str :=
  if n.kind = .bot then u.targetVer else u.hubVer

/-- One more node. -/
def PendingUpgrade.push (u : PendingUpgrade) (now : Int) (n : UpgradeNode) : PendingUpgrade :=
  { u with nodes := u.nodes ++ [n], lastAdded := now }

/-- One node rewritten. -/
def PendingUpgrade.modifyNode (u : PendingUpgrade) (i : Nat) (f : UpgradeNode → UpgradeNode) :
    PendingUpgrade :=
  { u with nodes := u.nodes.modify i f }

/-- End the run. The table stays. -/
def finish (u : PendingUpgrade) (phase : UpgradePhase) (summary : Str) : PendingUpgrade :=
  { u with active := false, phase := phase, summary := clean summary 192 }

/-- Give the run up. -/
def abort (u : PendingUpgrade) (reason : Str) : PendingUpgrade := finish u .aborted reason

/-! ### The start of a run -/

/-- A node a selection may name. -/
structure Cand where
  uuid : Str
  name : Str
  kind : UpgradeNodeKind
  deriving Repr, DecidableEq

/-- The one candidate of a list, if it has one. -/
def soleCand : List Cand → Option Cand
  | [e] => some e
  | _ => none

/-- A token: a uuid, else a name, else the first characters of a uuid. What names two is
refused. -/
def resolve (cands : List Cand) (tok : Str) : Option Cand :=
  match cands.find? fun e => eqIc e.uuid tok with
  | some e => some e
  | none =>
    match cands.filter fun e => !e.name.isEmpty && eqIc e.name tok with
    -- nothing by its full name: four characters of a uuid are enough if they name one
    | [] =>
      if utf8Len tok ≥ 4
        then soleCand (cands.filter fun e => (lower tok).isPrefixOf (lower e.uuid))
      else none
    | hits => soleCand hits

/-- A node of a selection: its uuid, its build and its kind. -/
abbrev Pick := Str × Str × UpgradeNodeKind

/-- A token and the build it asks for. -/
def pickToken (tok : Str) : Option (Str × Str) :=
  match splitOnce '=' tok with
  | none => some (tok, [])
  | some (name, want) => if want = ['c'] || want = "rs".toList then some (name, want) else none

/-- One more token. -/
def pickStep (cands : List Cand) (hubVer : Str) (picks : List Pick) (tok : Str) :
    Option (List Pick) := do
  let (name, want) ← pickToken tok
  let e ← resolve cands name
  -- named twice: the first mention counts, with its build
  if picks.any fun p => p.1 == e.uuid then some picks
  -- a hub can only be picked when the run has a version for hubs
  else if picks.length ≥ maxUpgradeSelect || (e.kind ≠ .bot && hubVer.isEmpty) then none
  else some (picks ++ [(e.uuid, want, e.kind)])

/-- The nodes a selection names. -/
def resolveSelection (cands : List Cand) (sel hubVer : Str) : Option (List Pick) := do
  let toks := ((sel.splitOn ',').flatMap fun s => s.splitOn ' ').filter fun t => !t.isEmpty
  let picks ← toks.foldlM (pickStep cands hubVer) []
  if picks.isEmpty then none else some picks

/-- What the console asked for. -/
structure StartArgs where
  targetVer : Str
  variant : Str
  kind : Str
  minFrom : Str
  hubVer : Str
  sel : Str

/-- A connection at the start of a run. A peer hub is known by the uuid it has of itself. -/
structure RosterClient where
  key : Str
  name : Str
  typ : ClientType
  version : Str
  fd : Int
  /-- The PREPARE could be queued. -/
  delivered : Bool

/-- What a start reads of the hub and its host. -/
structure StartEnv where
  now : Int
  frozen : Bool
  runId : Str
  originFd : Int
  hubUuid : Str
  hubFriendlyName : Str
  hubVersion : Str
  hostVariant : Str
  hostArch : Str
  hostLibc : Str
  cands : List Cand
  roster : List RosterClient
  /-- Why this hub cannot take a version and a build, from a version on. -/
  canTake : (hubVer want minFrom : Str) → Except Str Unit

/-- Whether a start is refused before its selection is looked at. -/
def startRefused (env : StartEnv) (u : PendingUpgrade) (a : StartArgs) : Bool :=
  -- a run under way, or a frozen hub
  u.active || env.frozen
    || a.targetVer.isEmpty || !planFieldOk a.targetVer || decide (utf8Len a.targetVer ≥ 64)
    -- the build and the kind are fixed words or left out
    || (!a.variant.isEmpty && a.variant != ['c'] && a.variant != "rs".toList)
    || (!a.kind.isEmpty && a.kind != "bin".toList && a.kind != "src".toList)
    || (!a.minFrom.isEmpty && (!planFieldOk a.minFrom || decide (utf8Len a.minFrom ≥ 64)))
    || decide (utf8Len a.hubVer ≥ 64) || a.hubVer.any planChars.contains

/-- The run before anybody was asked. -/
def emptyRun (env : StartEnv) (a : StartArgs) (picks : List Pick) : PendingUpgrade :=
  { active := true, id := env.runId, targetVer := stripVersionV a.targetVer, variant := a.variant,
    kind := a.kind, minFrom := if a.minFrom.isEmpty then ['*'] else a.minFrom,
    hubVer := stripVersionV a.hubVer, originFd := env.originFd, started := env.now,
    phaseStarted := env.now, phase := .prepare, lastAdded := env.now,
    select := picks.map fun p => (p.1, p.2.1),
    -- the selection as the PREPARE carries it, in the order it was typed
    selWire := [','].intercalate (picks.map fun p => if p.2.1.isEmpty then p.1
      else p.1 ++ '=' :: p.2.1) }

/-- A node that was asked, or could not be. -/
def UpgradeNode.asked (n : UpgradeNode) (delivered : Bool) : UpgradeNode :=
  if delivered then n
  else { n with state := .unable, reason := "could not deliver PREPARE".toList }

/-- Ask one connection. A bot that is not selected is not asked, a hub is. -/
def startRow (env : StartEnv) (u : PendingUpgrade) (r : RosterClient) : PendingUpgrade :=
  -- at the ceiling the rest of the roster is left out, without a word
  if u.nodes.length ≥ maxUpgradeNodes then u
  else
    match r.typ with
    | .bot =>
      -- the uuid of a bot is the key of its connection
      match selected u r.key with
      | none => u
      | some want =>
        u.push env.now (UpgradeNode.asked
          { uuid := r.key, kind := .bot, fd := r.fd, curVersion := r.version,
            wantVariant := want }
          r.delivered)
    | .hub =>
      -- a peer that has not said its own uuid cannot be asked
      if r.key.isEmpty then u
      else
        -- asked even when it was not picked: it passes the question on to its bots
        u.push env.now (UpgradeNode.asked
          { uuid := r.key, name := r.name, kind := .peerHub, fd := r.fd,
            wantVariant := (selected u r.key).getD [] } r.delivered)
    -- consoles take no part
    | .admin => u

/-- What this hub answers to itself. -/
def selfAnswer (env : StartEnv) (u : PendingUpgrade) : UpgradeNodeState × Str :=
  match selected u env.hubUuid with
  | none => (.unable, "not selected".toList)
  | some want =>
    if u.hubVer.isEmpty then (.unable, "no hub target in this run".toList)
    -- this hub is checked like every other, against the version for hubs
    else
      match env.canTake u.hubVer (if want.isEmpty then u.variant else want) u.minFrom with
      | .ok () => (.ready, [])
      | .error why => (.unable, why)

/-- This hub as a node of its own run. -/
def selfNode (env : StartEnv) (u : PendingUpgrade) : UpgradeNode :=
  { uuid := env.hubUuid, name := env.hubFriendlyName, kind := .selfHub, fd := -1,
    curVersion := env.hubVersion, variant := env.hostVariant,
    wantVariant := (selected u env.hubUuid).getD [],
    notSelected := (selected u env.hubUuid).isNone, arch := env.hostArch, libc := env.hostLibc,
    state := (selfAnswer env u).1, reason := (selfAnswer env u).2 }

/-- A selected node that was not asked directly. -/
def seedPick (env : StartEnv) (u : PendingUpgrade) (p : Pick) : PendingUpgrade :=
  -- one that answered for itself, or this hub, has its row already
  if (findNode u p.1).isSome || u.nodes.length ≥ maxUpgradeNodes then u
  else
    u.push env.now
      { uuid := p.1, kind := if p.2.2 = .bot then .bot else .peerHub, fd := -1,
        wantVariant := p.2.1 }

/-- The selection of a start. -/
def startPicks (env : StartEnv) (a : StartArgs) : Option (List Pick) :=
  if a.sel.isEmpty then some [] else resolveSelection env.cands a.sel a.hubVer

/-- The run with everybody asked. -/
def beginRun (env : StartEnv) (a : StartArgs) (picks : List Pick) : PendingUpgrade :=
  let u := env.roster.foldl (startRow env) (emptyRun env a picks)
  picks.foldl (seedPick env) (u.push env.now (selfNode env u))

/-- A new run, unless it is refused. -/
def start (env : StartEnv) (u : PendingUpgrade) (a : StartArgs) : Option PendingUpgrade :=
  if startRefused env u a then none else (startPicks env a).map (beginRun env a)

/-! ### Frames -/

/-- A frame the roll-up takes for itself. -/
def rollupTakes (rollup : Option Str) (id : Str) : Bool := !id.isEmpty && rollup == some id

/-- The fields of a READY: run, uuid, version, variant, arch, libc, ready, reason, kind,
relayed. -/
def readyFields (payload : Str) : List Str := splitn '|' 10 payload

/-- A node whose answer a peer passed on is reached through it. -/
def UpgradeNode.route (via : Str) (n : UpgradeNode) : UpgradeNode :=
  if n.via.isEmpty && n.kind ≠ .selfHub then { n with via := via } else n

/-- The row an answer is for. A node that was not asked is one behind the peer that passed it
on. -/
def readyRow (now : Int) (u : PendingUpgrade) (f : List Str) (fromPeer : Option Str) :
    Option (PendingUpgrade × Nat) :=
  -- a direct answer leaves the way to the node as it is
  match findNode u (f.getD 1 []), fromPeer with
  | some ni, none => some (u, ni)
  | some ni, some via => some (u.modifyNode ni (UpgradeNode.route via), ni)
  -- nobody asked it and no peer passed it on
  | none, none => none
  | none, some via =>
    -- the table is full
    if u.nodes.length ≥ maxUpgradeNodes then none
    else
      some (u.push now
        { uuid := f.getD 1 [], kind := if f.getD 8 [] = ['h'] then .peerHub else .bot, via := via,
          fd := -1 }, u.nodes.length)

/-- What an answer makes of a node: it is fixed with the plan, and only moves a selected node. -/
def answerState (u : PendingUpgrade) (f : List Str) : UpgradeNodeState × Str :=
  -- the node may say it is ready all the same
  if (selected u (f.getD 1 [])).isNone then (.unable, "not selected".toList)
  else if f.getD 6 [] ≠ ['1'] then (.unable, clean (f.getD 7 []) 128)
  -- too late for the plan; the operator is told to run again
  else if u.phase ≠ .prepare then
    (.unable, "answered after the plan was fixed — run again to include it".toList)
  else (.ready, clean (f.getD 7 []) 128)

/-- How many bots a hub says it passed the question on to. -/
def relayedOf (f : List Str) (n : UpgradeNode) : Nat :=
  if n.kind = .peerHub then
    match (f[9]?).bind parseUsize with
    -- a number past the ceiling counts as nothing rather than hold the run up
    | some rel => if rel ≤ maxUpgradeNodes then rel else 0
    | none => n.relayed
  else n.relayed

/-- A node with its answer. -/
def UpgradeNode.answer (u : PendingUpgrade) (f : List Str) (n : UpgradeNode) : UpgradeNode :=
  { n with
    readySeq := if n.readySeq = 0 then u.readySeqNext + 1 else n.readySeq
    curVersion := trunc (f.getD 2 []) (rosterVersionMax + 1)
    variant := trunc (f.getD 3 []) 8
    arch := trunc (f.getD 4 []) 32
    libc := trunc (f.getD 5 []) 16
    state := (answerState u f).1
    reason := (answerState u f).2
    notSelected := n.notSelected || (selected u (f.getD 1 [])).isNone
    relayed := relayedOf f n }

/-- The run with the answer of row `ni`, and the number of the last answer. -/
def PendingUpgrade.withAnswer (u : PendingUpgrade) (f : List Str) (ni seq : Nat) :
    PendingUpgrade :=
  { u.modifyNode ni (UpgradeNode.answer u f) with readySeqNext := seq }

/-- The answer of row `ni`, which counts once. -/
def answerRow (u : PendingUpgrade) (f : List Str) (ni : Nat) : PendingUpgrade :=
  match u.nodes[ni]? with
  | none => u
  | some n =>
    -- a second answer, or one of a node that was taken out
    if n.state ≠ .pending then u
    else u.withAnswer f ni (if n.readySeq = 0 then u.readySeqNext + 1 else u.readySeqNext)

/-- A READY. -/
def noteReady (now : Int) (rollup : Option Str) (u : PendingUpgrade) (payload : Str)
    (fromPeer : Option Str) : PendingUpgrade :=
  let f := readyFields payload
  -- too short, meant for the roll-up, or of another run
  if f.length < 7 || rollupTakes rollup (f.getD 0 []) || !u.active || u.id ≠ f.getD 0 [] then u
  else
    match readyRow now u f fromPeer with
    | none => u
    | some (u, ni) => answerRow u f ni

/-- What a result makes of a committed node. -/
-- an unknown word counts as a failure
def resultState (status : Str) : UpgradeNodeState :=
  if status = "ok".toList then .done
  else if status = "skip".toList then .unable
  else .failed

/-- A node with its result. -/
def UpgradeNode.settle (status detail : Str) (n : UpgradeNode) : UpgradeNode :=
  { n with
    state := resultState status
    reason :=
      if detail.isEmpty && resultState status ≠ .done then
        if resultState status = .unable then "skipped".toList else status
      else detail }

/-- A committed node that was seen back. -/
def UpgradeNode.back (now : Int) (n : UpgradeNode) : UpgradeNode :=
  if n.backAt = 0 then { n with backAt := now } else n

/-- A RESULT: run, uuid, status, version, detail. It counts for a committed node. -/
def noteResult (now : Int) (rollup : Option Str) (u : PendingUpgrade) (payload : Str) :
    PendingUpgrade :=
  let f := splitn '|' 5 payload
  -- results are taken after the run ended too, so only the run is checked
  if f.length < 4 || rollupTakes rollup (f.getD 0 []) || u.id ≠ f.getD 0 [] then u
  else
    match findNode u (f.getD 1 []) with
    | none => u
    | some ni =>
      match u.nodes[ni]? with
      | none => u
      | some n =>
        -- never committed, or settled before
        if n.state ≠ .committed then u
        else if f.getD 2 [] = "back".toList then u.modifyNode ni (UpgradeNode.back now)
        else u.modifyNode ni (UpgradeNode.settle (f.getD 2 []) (clean (f.getD 4 []) 128))

/-- What the presence of a node makes of it while the run rolls. -/
def UpgradeNode.seen (u : PendingUpgrade) (now : Int) (version variant : Str) (n : UpgradeNode) :
    UpgradeNode :=
  let onTarget := versionCmp version (nodeTarget u n) == .eq
  let want := nodeVariant u n
  if n.state = .done then
    -- a bot that said it was done and runs the old version after all
    if !onTarget && n.kind = .bot then
      { n with
        state := .failed
        reason := "came back on ".toList ++ trunc version 41 ++ " after reporting done".toList }
    else n
  else if n.state ≠ .committed || !onTarget then n
  -- the version alone does not tell the two builds apart
  else if !want.isEmpty && want != n.variant && variant != want then n
  -- a bot is done by its own report, or after the grace the tick gives it
  else if n.kind = .bot then n.back now
  else { n with state := .done }

/-- The presence of a node. -/
def notePresence (now : Int) (u : PendingUpgrade) (uuid version variant : Str) : PendingUpgrade :=
  -- before the plan is fixed presence means nothing
  if !u.active || u.phase ≠ .rolling then u
  else
    match findNode u uuid with
    | none => u
    | some ni => u.modifyNode ni (UpgradeNode.seen u now version variant)

/-! ### Commits -/

/-- A COMMIT: the row it went to, the table just before it, and the table its wave was counted
on. -/
structure Commit where
  row : Nat
  node : UpgradeNode
  before : PendingUpgrade
  wave : PendingUpgrade
  deriving Repr, DecidableEq

/-- What a tick reads of its surroundings. -/
structure TickEnv where
  /-- The time while the tick runs. -/
  clock : Int
  /-- Whether the COMMIT of a row could be queued. -/
  sent : Nat → Bool
  /-- Why this hub could not replace its own process: none when it did. -/
  selfCommit : Option Str
  hubVersion : Str

/-- Whether the hub a node is reached through restarted in this run. -/
def viaRestarted (u : PendingUpgrade) (n : UpgradeNode) : Bool :=
  -- a hub that was merely asked has not dropped the bots behind it
  !n.via.isEmpty && n.kind ≠ .selfHub &&
    ((findNode u n.via).bind (u.nodes[·]?)).any fun h =>
      h.state == .committed || h.state == .done || h.state == .failed

/-- Take a node out of the run. -/
def UpgradeNode.leave (reason : Str) (n : UpgradeNode) : UpgradeNode :=
  { n with state := .unable, reason := reason }

/-- A node that was told to commit. -/
def UpgradeNode.commit (now : Int) (n : UpgradeNode) : UpgradeNode :=
  { n with state := .committed, committedAt := now }

/-- The number of nodes, and what follows. -/
def countText (n : Nat) (text : String) : Str := Nat.toDigits 10 n ++ text.toList

/-- A node that failed. -/
def UpgradeNode.fail (reason : Str) (n : UpgradeNode) : UpgradeNode :=
  { n with state := .failed, reason := reason }

/-- This hub could not take the build. -/
def commitSelfFailed (env : TickEnv) (u : PendingUpgrade) (ni : Nat) (e : Str) : PendingUpgrade :=
  { u.modifyNode ni (UpgradeNode.fail e) with
    summary := clean (countText (count u .done none) " node(s) upgraded, but this hub stayed on "
      ++ env.hubVersion ++ ": ".toList ++ e) 192
    -- the run had ended as done; the failure overrides that
    phase := .failed }

/-- This hub commits: the run ends first, and if the hub is still there it failed. -/
def commitSelf (env : TickEnv) (u : PendingUpgrade) (ni : Nat) : PendingUpgrade :=
  -- the row is written first: the process may not come back from the commit
  let u := u.modifyNode ni (UpgradeNode.commit env.clock)
  let u := finish u .done
    (countText (count u .done none) " node(s) on " ++ u.targetVer
      ++ "; this hub is restarting onto it last".toList)
  match env.selfCommit with
  | none => u
  | some e => commitSelfFailed env u ni e

/-- Commit row `ni`: the table after it, and whether a COMMIT went out. -/
def commitNode (env : TickEnv) (u : PendingUpgrade) (ni : Nat) (n : UpgradeNode) :
    PendingUpgrade × Bool :=
  -- the bots behind a hub that restarts are out of reach for this run
  if viaRestarted u n then
    (u.modifyNode ni (UpgradeNode.leave "its hub restarted before it could be committed".toList),
    false)
  else if n.kind = .selfHub then (commitSelf env u ni, true)
  else if env.sent ni then (u.modifyNode ni (UpgradeNode.commit env.clock), true)
  -- nothing was sent, so the node still runs what it ran
  else (u.modifyNode ni (UpgradeNode.leave "disconnected before commit".toList), false)

/-! ### The tick -/

/-- The answers of relayed bots that are still owed. -/
def relaysOwed (u : PendingUpgrade) : Nat :=
  ((u.nodes.filter fun n => n.kind == .peerHub).map (·.relayed)).sum
    - u.nodes.countP fun n => n.kind == .bot && !n.via.isEmpty

/-- A bot that was seen back long ago is done. -/
-- seen back, and no report for the whole grace
def UpgradeNode.grace (now : Int) (n : UpgradeNode) : UpgradeNode :=
  if n.state = .committed && n.backAt > 0 && now - n.backAt > upgradeOpsGrace then
    { n with state := .done, reason := "back on target; no ready report".toList }
  else n

def opsGrace (now : Int) (u : PendingUpgrade) : PendingUpgrade :=
  { u with nodes := u.nodes.map (UpgradeNode.grace now) }

/-- A node that did not answer in time. -/
def UpgradeNode.silent (n : UpgradeNode) : UpgradeNode :=
  if n.state = .pending then n.leave "no answer to PREPARE".toList else n

/-- The answers are in, or too late: the plan is fixed. -/
def closePrepare (now : Int) (u : PendingUpgrade) : PendingUpgrade :=
  -- whoever has not answered by now is left out of the plan
  let u := { u with nodes := u.nodes.map UpgradeNode.silent }
  if count u .ready none = 0 then finish u .done "no node needed the upgrade".toList
  else { u with phase := .rolling, phaseStarted := now }

/-- Whether the run still waits for answers. -/
def prepareOpen (now : Int) (u : PendingUpgrade) : Bool :=
  -- past the timeout nothing is waited for
  decide (now - u.phaseStarted ≤ upgradePrepareTimeout)
    && (decide (count u .pending none > 0) || decide (relaysOwed u > 0)
      -- the table grew a moment ago: more answers may be on their way
      || decide (now - u.lastAdded < upgradePrepareSettle))

/-- A committed node that did not come back. -/
def stalled (now : Int) (u : PendingUpgrade) : Option Nat :=
  -- one that was seen back is no longer waited for, it has its grace
  u.nodes.findIdx? fun n =>
    n.state == .committed && n.backAt == 0 && decide (now - n.committedAt > upgradeCommitTimeout)

/-- The run fails with the node. -/
def failStalled (u : PendingUpgrade) (ni : Nat) (n : UpgradeNode) : PendingUpgrade :=
  let target := nodeTarget u n
  abort
    (u.modifyNode ni (UpgradeNode.fail
    ("did not return on ".toList ++ target ++ " in time".toList)))
    -- the reason names the node, so the console can tell the operator which
    (n.uuid ++ " did not come back on ".toList ++ target)

/-- The bots the run touches. -/
def touched (u : PendingUpgrade) : Nat :=
  count u .ready (some .bot) + count u .committed (some .bot) + count u .done (some .bot)

/-- How many nodes may be committed at once. -/
def waveSize (u : PendingUpgrade) : Nat :=
  -- at least one, so a small mesh is not stuck at zero
  max 1 (min upgradeBotWaveMax (touched u / upgradeBotWaveDivisor))

/-- A wave while it goes through the table. -/
structure Wave where
  upgrade : PendingUpgrade
  inFlight : Nat
  commits : List Commit

/-- One row of a wave. -/
def waveStep (env : TickEnv) (u : PendingUpgrade) (w : Wave) (ni : Nat) : Wave :=
  -- the wave is full; the width is of the table before it
  if w.inFlight ≥ waveSize u then w
  else
    match w.upgrade.nodes[ni]? with
    | none => w
    | some n =>
      -- hubs come after all bots
      if n.state ≠ .ready || n.kind ≠ .bot then w
      else
        let p := commitNode env w.upgrade ni n
        if p.2 then ⟨p.1, w.inFlight + 1, w.commits ++ [⟨ni, n, w.upgrade, u⟩]⟩
        else ⟨p.1, w.inFlight, w.commits⟩

/-- A wave of bots. -/
def wave (env : TickEnv) (u : PendingUpgrade) : Wave :=
  (List.range u.nodes.length).foldl (waveStep env u) ⟨u, count u .committed none, []⟩

/-- The row and the order of the hub that answered last so far. -/
-- equal numbers go to the later row
def latestReady (best : Option (Nat × Nat)) (p : UpgradeNode × Nat) : Option (Nat × Nat) :=
  -- the farthest hub answered last, so a hub goes before the one it hangs off
  if p.1.state = .ready && p.1.kind = .peerHub then
    match best with
    | some b => if p.1.readySeq ≥ b.2 then some (p.2, p.1.readySeq) else best
    | none => some (p.2, p.1.readySeq)
  else best

/-- The next hub: the peer that answered last, and after all of them this one. -/
def nextHub (u : PendingUpgrade) : Option Nat :=
  match u.nodes.zipIdx.foldl latestReady none with
  | some b => some b.1
  -- no peer is left: this hub is the last of all
  | none => u.nodes.findIdx? fun n => n.state == .ready && n.kind == .selfHub

/-- Commit one hub. -/
def commitHub (env : TickEnv) (u : PendingUpgrade) (ni : Nat) : PendingUpgrade × List Commit :=
  match u.nodes[ni]? with
  | none => (u, [])
  | some n =>
    let p := commitNode env u ni n
    (p.1, if p.2 then [⟨ni, n, u, u⟩] else [])

/-- The run is over. -/
def finishDone (u : PendingUpgrade) : PendingUpgrade :=
  finish u .done (countText (count u .done none) " node(s) now on the target, "
    ++ countText (u.nodes.countP fun n => n.state == .unable && !n.notSelected)
      " could not take it")

/-- A tick of a rolling run, after the grace. -/
def roll (env : TickEnv) (now : Int) (u : PendingUpgrade) : PendingUpgrade × List Commit :=
  match (stalled now u).bind fun ni => (u.nodes[ni]?).map fun n => (ni, n) with
  -- one node that stays away ends the run; whoever is committed goes on by itself
  | some (ni, n) => (failStalled u ni n, [])
  | none =>
    -- no further commits once one has failed
    if count u .failed none > 0 then (abort u "a node reported the upgrade failed".toList, [])
    else if count u .ready (some .bot) > 0 then ((wave env u).upgrade, (wave env u).commits)
    -- nothing left to send, but not everybody is back
    else if count u .committed none > 0 then (u, [])
    else
      match nextHub u with
      | some ni => commitHub env u ni
      | none => (finishDone u, [])

/-- The maintenance tick of the driver. -/
def tick (env : TickEnv) (now : Int) (u : PendingUpgrade) : PendingUpgrade × List Commit :=
  if !u.active then (u, [])
  else
    match u.phase with
    | .prepare => (if prepareOpen now u then u else closePrepare now u, [])
    | .rolling => roll env now (opsGrace now u)
    | _ => (u, [])

/-! ### Runs -/

/-- The driver: the run, how many there were, and whether the process was replaced. -/
structure Driver where
  upgrade : PendingUpgrade := {}
  runs : Nat := 0
  replaced : Bool := false

/-- What happens to the driver. -/
inductive UpgradeEvent
  | start (env : StartEnv) (a : StartArgs)
  | ready (now : Int) (rollup : Option Str) (payload : Str) (fromPeer : Option Str)
  | result (now : Int) (rollup : Option Str) (payload : Str)
  | presence (now : Int) (uuid version variant : Str)
  | tick (env : TickEnv) (now : Int)
  | abort (reason : Str)

/-- The driver after a tick. -/
def Driver.ticked (d : Driver) (env : TickEnv) (p : PendingUpgrade × List Commit) : Driver :=
  { d with
    upgrade := p.1
    replaced := env.selfCommit.isNone && p.2.any fun c => c.node.kind == .selfHub }

/-- One event: the driver after it, and the COMMITs it sent with the number of their run. -/
def Driver.step (d : Driver) (ev : UpgradeEvent) : Driver × List (Nat × Commit) :=
  -- the process that drove the run is gone
  if d.replaced then (d, [])
  else
    match ev with
    | .start env a =>
      match Hub.start env d.upgrade a with
      -- refused, the run there was is untouched
      | none => (d, [])
      | some u => ({ d with upgrade := u, runs := d.runs + 1 }, [])
    | .ready now rollup payload fromPeer =>
      ({ d with upgrade := noteReady now rollup d.upgrade payload fromPeer }, [])
    | .result now rollup payload =>
        -- a result never sends anything by itself
        ({ d with upgrade := noteResult now rollup d.upgrade payload }, [])
    | .presence now uuid version variant =>
      ({ d with upgrade := notePresence now d.upgrade uuid version variant }, [])
    | .tick env now =>
      (d.ticked env (Hub.tick env now d.upgrade),
        -- a COMMIT is labelled with the run it belongs to, so runs do not mix
        (Hub.tick env now d.upgrade).2.map fun c => (d.runs, c))
    | .abort reason => ({ d with upgrade := Hub.abort d.upgrade reason }, [])

end IrcHub.Hub
