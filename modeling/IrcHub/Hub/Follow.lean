import IrcHub.Hub.Console
import IrcHub.Hub.Upgrade

/-!
# `IrcHub.Hub.Follow`: a hub as a node of a run another hub drives

A hub as a node of a run another hub drives, from `upgrade.rs`. The driver sends PREPARE to its
peers. A hub joins a run once, through the peer it heard of it first: it asks its own bots, passes
the question on to its other peers and answers.

- `UpgradeHub`: a hub with what the question of an upgrade reads and writes
- `preparePeer`: the PREPARE a driver sends to its peers
- `readPrepare`: a PREPARE as a follower reads it, `none` when a field is not well formed
- `Prepare.frame`: the PREPARE passed on, rebuilt from the checked fields
- `peerPrepare`: what a hub does with a PREPARE

The selection travels as one field of the frame, with the uuid of each node and the build it is to
take. `selLookup` reads it on the follower's side, and the driver has written it with its own
formatter, so what one side means and what the other reads are two functions.

A connection is known by the uuid of the hub on it. What the host decides is an input: the time,
whether it can take a build. Left out: the answers on their way back, COMMIT and ABORT at a hub
that does not drive the run, the log, and the config file the roll-up plan is written to.
-/

set_option autoImplicit false

namespace IrcHub.Hub

open Str
open String (utf8Len)

abbrev maxSeenForwardIds : Nat := 256

/-! ### State -/

/-- The plan a straggler is walked up to, and the attempt in flight. -/
structure PendingRollup where
  havePlan : Bool := false
  target : Str := []
  variant : Str := []
  kind : Str := []
  minFrom : Str := []
  /-- Empty when the run moved no hubs. -/
  hubTarget : Str := []
  planSet : Int := 0
  active : Bool := false
  id : Str := []
  uuid : Str := []
  nodeKind : UpgradeNodeKind := .bot
  step : Str := []
  started : Int := 0
  committed : Bool := false
  deriving Repr, DecidableEq

/-- The attempts a node was charged. -/
structure RollupTry where
  uuid : Str
  lastTry : Int
  tries : Nat
  deriving Repr, DecidableEq

/-- Frames for a node go out through a peer. -/
structure UpgradeRoute where
  uuid : Str
  via : Str
  deriving Repr, DecidableEq

/-- What a hub keeps of the run it is a node of. -/
structure Follow where
  id : Str := []
  origin : Str := []
  target : Str := []
  botVariant : Str := []
  sel : Str := []
  variant : Str := []
  hubTarget : Str := []
  selfReady : Bool := false
  prepared : Int := 0
  routes : List UpgradeRoute := []
  deriving Repr, DecidableEq

/-- A hub as the frames of an upgrade see it. -/
structure UpgradeHub where
  hubUuid : Str
  hubVersion : Str := []
  hostVariant : Str := []
  hostArch : Str := []
  hostLibc : Str := []
  /-- The hubs it is linked to. -/
  peers : List Str := []
  /-- The bots logged in here. -/
  bots : List Str := []
  /-- The run it drives. -/
  upgrade : PendingUpgrade := {}
  /-- The run it is a node of. -/
  follow : Follow := {}
  rollup : PendingRollup := {}
  rollupTries : List RollupTry := []
  optFlags : Str := []
  optFlagsTs : Int := 0
  /-- The last ids passed on, the newest first. -/
  seenForwards : List Str := []
  deriving Repr, DecidableEq

inductive UpgradeCmd
  | prepare | ready | commit | result | abort
  deriving Repr, DecidableEq

structure UpgradeFrame where
  cmd : UpgradeCmd
  payload : Str
  deriving Repr, DecidableEq

/-- A frame on its way out. -/
inductive Outgoing
  | peer (uuid : Str) (frame : UpgradeFrame)
  | bot (uuid : Str) (frame : UpgradeFrame)
  deriving Repr, DecidableEq

/-- What a follower reads of its host. -/
structure FollowEnv where
  now : Int
  /-- Why this hub cannot take a version and a build, from a version on. -/
  canTake : (hubVer want minFrom : Str) → Except Str Unit
  /-- The bots a frame could be queued for. -/
  told : Str → Bool
  /-- Why this hub could not replace its own process by a version and a build: none when it
  did. -/
  selfCommit : (ver variant : Str) → Option Str
  /-- The retained build could be put back. -/
  rollback : Bool

/-! ### Ids -/

/-- A new id from 8 random bytes. -/
def generateRequestId (r : Fin 8 → UInt8) : Str :=
  let h (is : List (Fin 8)) : Str := is.flatMap fun i => hexByte (r i)
  h [0, 1, 2, 3] ++ '-' :: h [4, 5] ++ '-' :: h [6, 7]

def forwardSeen (h : UpgradeHub) (id : Str) : Bool := !id.isEmpty && h.seenForwards.contains id

/-- The oldest id makes room. -/
def forwardAdd (h : UpgradeHub) (id : Str) : UpgradeHub :=
  { h with seenForwards := (trunc id 64 :: h.seenForwards).take maxSeenForwardIds }

/-! ### The nodes a selection may name -/

/-- One more node, or a name for one that had none. -/
def candAdd (cands : List Cand) (e : Cand) : List Cand :=
  if e.uuid.isEmpty || e.uuid = ['-'] then cands
  else
    match cands.findIdx? fun c => c.uuid == e.uuid with
    | some i => cands.modify i fun c => if c.name.isEmpty then { c with name := e.name } else c
    | none => cands ++ [e]

/-- The nodes a hub could name, from what it knows in order: itself, its peers, the mesh map, the
bots logged in, the roster and the stored bots. -/
def candidates (known : List Cand) : List Cand := known.foldl candAdd []

/-! ### PREPARE -/

/-- The PREPARE of a run as its driver sends it to a peer. Both base fields are empty. -/
def preparePeer (u : PendingUpgrade) : Str :=
  u.id ++ '|' :: u.targetVer ++ '|' :: u.variant ++ '|' :: u.kind ++ '|' :: u.minFrom ++ '|' ::
    '|' :: u.hubVer ++ '|' :: (if u.selWire.isEmpty then [] else '|' :: u.selWire)

/-- A PREPARE as a follower reads it. -/
structure Prepare where
  id : Str
  ver : Str
  variant : Str
  kind : Str
  minFrom : Str
  hubVer : Str
  sel : Str
  deriving Repr, DecidableEq

/-- A character of a selection on the wire. -/
def selChar (c : Char) : Bool := c.isAlphanum || c == '-' || c == '=' || c == ','

/-- A PREPARE, `none` when it is malformed. -/
def readPrepare (payload : Str) : Option Prepare :=
  let f := splitn '|' 9 payload
  if f.length < 2 || (f.getD 0 []).isEmpty || (f.getD 1 []).isEmpty
      || decide (utf8Len (f.getD 0 []) > 63) || decide (utf8Len (f.getD 1 []) > 63)
      || !(f.getD 8 []).all selChar || !f.all planFieldOk then none
  else
    some { id := f.getD 0 [], ver := f.getD 1 [], variant := f.getD 2 [], kind := f.getD 3 [],
           minFrom := f.getD 4 [], hubVer := f.getD 6 [], sel := f.getD 8 [] }

/-- The PREPARE passed on, rebuilt from the checked fields. -/
def Prepare.frame (p : Prepare) : Str :=
  p.id ++ '|' :: p.ver ++ '|' :: p.variant ++ '|' :: p.kind ++ '|' :: p.minFrom ++ '|' ::
    '|' :: p.hubVer ++ '|' :: ((if p.sel.isEmpty then [] else ['|']) ++ p.sel)

/-- An entry of a selection on the wire: uuid and build. -/
def selEntry (e : Str) : Str × Str := (splitOnce '=' e).getD (e, [])

/-- Whether a selection on the wire lists a node, and the build it asks for. -/
def selLookup (sel uuid : Str) : Option Str :=
  if uuid.isEmpty then none
  else ((sel.splitOn ',').find? fun e => (selEntry e).1 == uuid).map fun e => (selEntry e).2

/-- Whether a PREPARE asks a node, and the build it asks for. -/
def Prepare.pick (p : Prepare) (uuid : Str) : Option Str :=
  if p.sel.isEmpty then some [] else selLookup p.sel uuid

/-- The answer of a hub: its own fields, why not, that it is a hub and how many bots it asked. -/
def answerReady (h : UpgradeHub) (id : Str) (ready : Bool) (reason : Str) (relayed : Nat) :
    UpgradeFrame :=
  ⟨.ready, id ++ '|' :: h.hubUuid ++ '|' :: h.hubVersion ++ '|' :: h.hostVariant ++ '|' ::
    h.hostArch ++ '|' :: h.hostLibc ++ '|' :: (if ready then '1' else '0') :: '|' ::
    clean reason 192 ++ "|h|".toList ++ Nat.toDigits 10 relayed⟩

/-- The build this hub is asked to take. -/
def Prepare.selfVariant (p : Prepare) (h : UpgradeHub) : Str :=
  match p.pick h.hubUuid with
  | some v => if v.isEmpty then p.variant else v
  | none => p.variant

/-- Why this hub does not take part itself. -/
def selfRefusal (env : FollowEnv) (h : UpgradeHub) (p : Prepare) : Option Str :=
  if (p.pick h.hubUuid).isNone then some "not selected".toList
  else if p.hubVer.isEmpty then some "no hub target in this run".toList
  else
    match env.canTake p.hubVer (p.selfVariant h) p.minFrom with
    | .ok () => none
    | .error why => some why

/-- The plan of a run as the plan stragglers are walked up to. A selective run says nothing about
the rest. -/
def rollupPlan (env : FollowEnv) (h : UpgradeHub) (p : Prepare) : UpgradeHub :=
  if p.sel.isEmpty then
    { h with
      rollup := { h.rollup with
        havePlan := true, target := p.ver, variant := p.variant, kind := p.kind,
        minFrom := if p.minFrom.isEmpty then ['*'] else p.minFrom, hubTarget := p.hubVer,
        planSet := env.now }
      rollupTries := [] }
  else h

/-- Join a run through the peer it was heard from. -/
def joinRun (env : FollowEnv) (h : UpgradeHub) (src : Str) (p : Prepare) : UpgradeHub :=
  rollupPlan env
    { h with
      follow :=
        { id := p.id, origin := src, target := p.ver, botVariant := p.variant, sel := p.sel,
          variant := if (p.selfVariant h).isEmpty then h.hostVariant else p.selfVariant h,
          hubTarget := p.hubVer, selfReady := (selfRefusal env h p).isNone, prepared := env.now,
          routes := [] } } p

/-- The bots a run asks of a hub, each with its own question. -/
def botPrepares (h : UpgradeHub) (p : Prepare) : List (Str × UpgradeFrame) :=
  h.bots.filterMap fun b => (p.pick b).map fun v =>
    (b, ⟨.prepare, p.id ++ '|' :: p.ver ++ '|' :: (if v.isEmpty then p.variant else v) ++ '|' ::
      p.kind ++ '|' :: p.minFrom ++ ['|']⟩)

/-- A PREPARE from a peer. -/
def peerPrepare (env : FollowEnv) (h : UpgradeHub) (src payload : Str) :
    UpgradeHub × List Outgoing :=
  match readPrepare payload with
  | none => (h, [])
  | some p =>
    if forwardSeen h p.id then (h, [])
    else if h.upgrade.active then
      (forwardAdd h p.id,
        [.peer src (answerReady h p.id false "already driving an upgrade of its own".toList 0)])
    else
      let asked := (botPrepares h p).filter fun q => env.told q.1
      (joinRun env (forwardAdd h p.id) src p,
        asked.map (fun q => .bot q.1 q.2)
          ++ (h.peers.filter (· != src)).map (fun q => .peer q ⟨.prepare, p.frame⟩)
          ++ [.peer src (answerReady h p.id (selfRefusal env h p).isNone
            ((selfRefusal env h p).getD []) asked.length)])

end IrcHub.Hub
