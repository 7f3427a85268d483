import IrcHub.Hub.ConnLimits
import IrcHub.Lib.Table

/-!
# `IrcHub.Hub.RateLimit`: the connections of a hub and the limits of their addresses

The connections of a hub and the limits of their addresses, from `ratelimit.rs` and `main.rs`.
Every accepted connection passes the allow and deny lists, the startup gate and `isIpAllowed`, the
per-address gate: a block, the churn window, and the cap on open connections (`conn perip`). The
open connections of an address are counted in its entry of the rate-limit table, up when a
connection is accepted or a console opens, down in `disconnectClient`, which every connection goes
through.

- `IpRateLimit`, `ipLimitSlot`: the table of addresses. An entry with a connection open or a block
  is not given to another address
- `attempt`: one connection attempt on the entry of its address
- `HubClient`, `ConnState`: the connections, and what the gates and the counters read of a hub
- `acceptOne`, `finishDial`, `sniff`, `openConsole`, `disconnectClient`: what happens to
  connections
- `ConnEvent`, `connStep`, `connRun`: a run of all of these

Connections this hub dials to its peers are in the same list of clients and are counted on no
address. A connection that turns out to be SSH leaves the list for the console thread (`handoff`)
and comes back as a console once its login holds (`openConsole`).

What the gates read of the rest of the state comes with the event: the answer of the allow and
deny lists, whether the address is known (a peer, a bot of the roster, a recent login) and the
random number. The SSH table here is the one of `IrcHub.Hub.SshTable` without its arithmetic.
-/

set_option autoImplicit false

namespace IrcHub.Hub

open Str

abbrev maxClients : Nat := 100
abbrev maxIpRateLimits : Nat := 500
abbrev maxSshIps : Nat := 256
abbrev sshBlockMax : Int := 86400
abbrev sshBlockMemory : Int := 86400
abbrev sshSuccessMemory : Int := 86400

/-! ### The SSH address table -/

/-- One address of the SSH-only table. -/
structure SshIp where
  ip : Str := []
  winStart : Int := 0
  connN : Int := 0
  failLast : Int := 0
  failN : Int := 0
  blockedUntil : Int := 0
  lastBlock : Int := 0
  level : Int := 0
  lastSeen : Int := 0
  lastSuccess : Int := 0
  deriving Repr, DecidableEq

/-- The earliest position with the least key among the rows that are taken into account. -/
def oldestSlot {α : Type} (skip : α → Bool) (key : α → Int) (rows : List α) :
    Option (Nat × Int) :=
  rows.zipIdx.foldl
    -- the first of equal keys stays, as in the loop of the source
    (fun slot p => if skip p.1 then slot
      else match slot with
        | none => some (p.2, key p.1)
        | some (j, oldest) => if key p.1 < oldest then some (p.2, key p.1) else some (j, oldest))
    none

/-- The row of an address, made when there is none: at the end, or in the place of the address
unseen longest that is not blocked, else of the one whose block ends first. -/
def sshFind (tab : List SshIp) (ip : Str) (now : Int) : List SshIp × Nat :=
  match tab.findIdx? (fun e => decide (e.ip = ip)) with
  -- known: its row only moves up in time
  | some i => (tab.modify i fun e => { e with lastSeen := now }, i)
  | none =>
    let fresh : SshIp := { ip := trunc ip 64, lastSeen := now, winStart := now }
    if tab.length < maxSshIps then (tab ++ [fresh], tab.length)
    else
      -- full: a row that is not blocked goes first
      let slot := match oldestSlot (fun e => decide (now < e.blockedUntil)) (·.lastSeen) tab with
        | some (i, _) => i
        -- every row is blocked: the block that ends first is given up
        | none => ((oldestSlot (fun _ => false) (·.blockedUntil) tab).map (·.1)).getD 0
      (tab.set slot fresh, slot)

/-- Seconds of a block: the base, doubled for each block before it, up to the greatest. -/
def blockSecs (secs : Int) : Nat → Int
  | 0 => secs
  | level + 1 => if secs < sshBlockMax then blockSecs (secs * 2) level else secs

/-- The row once a block starts, and its seconds. -/
def startBlock (e : SshIp) (cfg : ConnCfg) (now : Int) : SshIp × Int :=
  -- a block soon after the last one is longer than that was
  let level := if 0 < e.lastBlock ∧ now - e.lastBlock < sshBlockMemory then
      if e.level < 30 then e.level + 1 else e.level
    else 0
  let secs := min (blockSecs (cfg .block) level.toNat) sshBlockMax
  ({ e with level, blockedUntil := now + secs, lastBlock := now, connN := 0, failN := 0 }, secs)

/-- A row whose block has run out starts afresh. -/
def SshIp.unblocked (e : SshIp) : SshIp :=
  if 0 < e.blockedUntil then { e with blockedUntil := 0, connN := 0, failN := 0 } else e

/-- One connection that is SSH, on the row of its address: admitted or not. -/
def sshConnectRow (cfg : ConnCfg) (now : Int) (e : SshIp) : SshIp × Bool :=
  -- blocked: the attempt is not counted
  if now < e.blockedUntil then (e, false)
  else
    let e := e.unblocked
    -- a login that held lately: the limit does not apply
    if 0 < e.lastSuccess ∧ now - e.lastSuccess < sshSuccessMemory then (e, true)
    else
      let e := if cfg .connectS ≤ now - e.winStart then { e with winStart := now, connN := 0 }
        else e
      let e := { e with connN := e.connN + 1 }
      -- one past the limit starts the block and clears the counters
      if cfg .connectN < e.connN then ((startBlock e cfg now).1, false) else (e, true)

/-- A connection that is SSH. -/
def sshTableConnect (tab : List SshIp) (cfg : ConnCfg) (ip : Str) (now : Int) :
    List SshIp × Bool :=
  let (tab, i) := sshFind tab ip now
  match tab[i]? with
  | none => (tab, false)
  | some e => (tab.set i (sshConnectRow cfg now e).1, (sshConnectRow cfg now e).2)

/-- A console login that held. -/
def sshTableSuccess (tab : List SshIp) (ip : Str) (now : Int) : List SshIp :=
  let (tab, i) := sshFind tab ip now
  tab.modify i fun e => { e with lastSuccess := now }

/-- Whether the address had a console login lately. -/
def sshTableRecentOk (tab : List SshIp) (ip : Str) (now : Int) : Bool :=
  match tab.find? (fun e => decide (e.ip = ip)) with
  | some e => decide (0 < e.lastSuccess ∧ now - e.lastSuccess < sshSuccessMemory)
  | none => false

/-- One refused SSH login, on the row of its address. -/
def sshFailedRow (cfg : ConnCfg) (now : Int) (e : SshIp) : SshIp :=
  -- blocked: further failures do not extend the block
  if now < e.blockedUntil then e
  else
    let e := e.unblocked
    -- the failures before a quiet spell are forgotten
    let e := if 0 < e.failLast ∧ cfg .authfailS < now - e.failLast
      then { e with failN := 0 } else e
    let e := { e with failN := e.failN + 1, failLast := now }
    if cfg .authfailN ≤ e.failN then (startBlock e cfg now).1 else e

/-- A refused SSH login. -/
def sshTableFailed (tab : List SshIp) (cfg : ConnCfg) (ip : Str) (now : Int) : List SshIp :=
  let (tab, i) := sshFind tab ip now
  tab.modify i (sshFailedRow cfg now)

/-! ### The rate-limit table -/

/-- One address of the rate-limit table. -/
structure IpRateLimit where
  ip : Str := []
  activeConnections : Int := 0
  failedAuthCount : Int := 0
  lastFailedAuth : Int := 0
  blockedUntil : Int := 0
  firstSeen : Int := 0
  churnWindowStart : Int := 0
  churnCount : Int := 0
  deriving Repr, DecidableEq

/-- An entry with a connection open or a block is not given to another address. -/
def IpRateLimit.held (now : Int) (e : IpRateLimit) : Bool :=
  decide (0 < e.activeConnections)
    || (decide (0 < e.blockedUntil) && decide (now < e.blockedUntil))

/-- The last time anything happened on an entry. -/
def IpRateLimit.last (e : IpRateLimit) : Int :=
  max (max e.firstSeen e.lastFailedAuth) e.churnWindowStart

/-- The slot of an address: its own entry, else a free one or the one idle longest, which is new
to it. `none` when every entry is open or blocked. -/
-- also while it is blocked: a block stays on its own entry
def ipLimitSlot (limits : List IpRateLimit) (ip : Str) (now : Int) : Option (Nat × Bool) :=
  match limits.findIdx? (fun e => decide (e.ip = ip)) with
  | some i => some (i, false)
  | none =>
    if limits.length < maxIpRateLimits then some (limits.length, true)
    -- an entry that is held is never given away
    else (oldestSlot (IpRateLimit.held now) IpRateLimit.last limits).map fun p => (p.1, true)

/-- A new entry. -/
def IpRateLimit.fresh (ip : Str) (now : Int) : IpRateLimit :=
  { ip := trunc ip 64, firstSeen := now, churnWindowStart := now }

/-- The entry of an address, made when there is none. -/
def findOrCreate (limits : List IpRateLimit) (ip : Str) (now : Int) :
    List IpRateLimit × Option Nat :=
  match ipLimitSlot limits ip now with
  | none => (limits, none)
  -- no slot: the connection goes uncounted, and the gate lets it in
  | some (i, false) => (limits, some i)
  | some (i, true) =>
    (if i = limits.length then limits ++ [.fresh ip now] else limits.set i (.fresh ip now),
    some i)

/-- Why the gate lets a connection in or not. -/
inductive IpVerdict
  | allowed
  | blocked
  | churn
  | perip
  deriving Repr, DecidableEq

/-- The verdict of the cap. -/
def peripVerdict (cfg : ConnCfg) (e : IpRateLimit) : IpVerdict :=
  if cfg .perip ≤ e.activeConnections then .perip else .allowed

/-- An entry whose block has run out starts afresh. -/
def IpRateLimit.unblocked (e : IpRateLimit) : IpRateLimit :=
  if 0 < e.blockedUntil then { e with blockedUntil := 0, failedAuthCount := 0 } else e

/-- One attempt more in the churn window, a new window when the old one is over. -/
def IpRateLimit.counted (cfg : ConnCfg) (now : Int) (e : IpRateLimit) : IpRateLimit :=
  if cfg .churnS ≤ now - e.churnWindowStart
    then { e with churnWindowStart := now, churnCount := 1 }
  else { e with churnCount := e.churnCount + 1 }

/-- One connection attempt on the entry of its address. An address with a recent console login is
not held to the churn limit. -/
def attempt (cfg : ConnCfg) (recent : Bool) (now : Int) (e : IpRateLimit) :
    IpRateLimit × IpVerdict :=
  if 0 < e.blockedUntil ∧ now < e.blockedUntil then (e, .blocked)
  -- a recent console login passes the churn limit, not the cap
  else if recent then (e.unblocked, peripVerdict cfg e.unblocked)
  else if cfg .churnN < (e.unblocked.counted cfg now).churnCount then
    -- the block of the churn limit is not the one of failed logins
    ({ e.unblocked.counted cfg now with blockedUntil := now + cfg .churnBlock }, .churn)
  else (e.unblocked.counted cfg now, peripVerdict cfg (e.unblocked.counted cfg now))

/-- One refused login, on the entry of its address. -/
def failedAuthRow (cfg : ConnCfg) (now : Int) (e : IpRateLimit) : IpRateLimit :=
  let e := if cfg .failS < now - e.lastFailedAuth then { e with failedAuthCount := 0 } else e
  let e := { e with failedAuthCount := e.failedAuthCount + 1, lastFailedAuth := now }
  -- the block runs from this failure on
  if cfg .failN ≤ e.failedAuthCount then { e with blockedUntil := now + cfg .failBlock } else e

/-- One connection more. -/
def incrementActiveConnections (limits : List IpRateLimit) (ip : Str) (now : Int) :
    List IpRateLimit :=
  match findOrCreate limits ip now with
  | (limits, some i) =>
    limits.modify i fun e => { e with activeConnections := e.activeConnections + 1 }
  | (limits, none) => limits

/-- One connection less. -/
def decrementActiveConnections (limits : List IpRateLimit) (ip : Str) : List IpRateLimit :=
  match limits.findIdx? (fun e => decide (e.ip = ip)) with
  | some i => limits.modify i fun e =>
      -- a count is never taken below zero
      if 0 < e.activeConnections then { e with activeConnections := e.activeConnections - 1 }
        else e
  | none => limits

/-- Idle entries without a block go after an hour. -/
def cleanupOldIpLimits (limits : List IpRateLimit) (now : Int) : List IpRateLimit :=
  limits.filter fun e =>
    -- anything still counted or blocked stays, whatever its age
    !(decide (e.activeConnections = 0) && decide (e.blockedUntil = 0)
      && decide (3600 < now - e.firstSeen))

/-! ### The connections -/

/-- One connection: a socket accepted or dialled, or the inner side of an SSH console. -/
structure HubClient where
  ip : Str
  inbound : Bool := false
  authenticated : Bool := false
  internal : Bool := false
  dialing : Bool := false
  sniffPending : Bool := false
  deriving Repr, DecidableEq

/-- What the gates and the counters read of a hub. -/
structure ConnState where
  clients : List HubClient := []
  ipLimits : List IpRateLimit := []
  sshIps : List SshIp := []
  connCfg : ConnCfg := connDefaults
  trustLoopback : Bool := false

/-- Loopback is exempt when the operator trusts it. -/
def trustedLoopback (s : ConnState) (ip : Str) : Bool :=
  s.trustLoopback && (decide (ip = "127.0.0.1".toList) || decide (ip = "::1".toList))

/-- The gate before `isIpAllowed`: known addresses pass, an unknown one only with room in the
table and past a random early drop on the connections not yet authenticated. -/
def startupAdmit (s : ConnState) (ip : Str) (now : Int) (known : Bool)
    (random : Option Nat) : Bool :=
  if trustedLoopback s ip then true
  else if known then true
  -- an unknown address and no entry to give it
  else if (ipLimitSlot s.ipLimits ip now).isNone then false
  else
    let waiting : Int := s.clients.countP fun c => c.inbound && !c.authenticated
    let start := s.connCfg .startupsStart
    let full := max (s.connCfg .startupsFull) start
    if waiting < start then true
    else if waiting < full then
      let rate := s.connCfg .startupsRate
      -- the share that is dropped grows linearly between the two thresholds
      let p := rate + ((100 - rate) * (waiting - start)).tdiv (full - start)
      match random with
      | some r => decide (p ≤ ((r % 100 : Nat) : Int))
      -- no random number to be had: drop
      | none => false
    else false

/-- The gate of every accepted connection. -/
def isIpAllowed (s : ConnState) (ip : Str) (now : Int) : ConnState × IpVerdict :=
  if trustedLoopback s ip then (s, .allowed)
  else
    -- the table is full of held entries: nothing to count on
    match findOrCreate s.ipLimits ip now with
    | (limits, none) => ({ s with ipLimits := limits }, .allowed)
    | (limits, some i) =>
      match limits[i]? with
      | none => ({ s with ipLimits := limits }, .allowed)
      | some e =>
        let r := attempt s.connCfg (sshTableRecentOk s.sshIps ip now) now e
        ({ s with ipLimits := limits.set i r.1 }, r.2)

/-- A connection in the list, counted on its address. -/
def openInbound (s : ConnState) (c : HubClient) (now : Int) : ConnState :=
  { s with
    clients := s.clients ++ [c]
    ipLimits := incrementActiveConnections s.ipLimits c.ip now }

/-- One connection from the listener. -/
def acceptOne (s : ConnState) (ip : Str) (now : Int) (acl known : Bool) (random : Option Nat) :
    ConnState :=
  -- the lists of addresses come before every counter
  if !acl then s
  else if !startupAdmit s ip now known random then s
  else
    let (s, verdict) := isIpAllowed s ip now
    if verdict ≠ .allowed then s
    -- counted by the gate, and dropped for want of a place
    else if maxClients ≤ s.clients.length then s
    else openInbound s { ip, inbound := true, sniffPending := true } now

/-- One connection closed: its address has one less, and the last connection takes its place. -/
def disconnectClient (s : ConnState) (ci : Nat) : ConnState :=
  match s.clients[ci]? with
  | none => s
  | some c =>
    { s with
      ipLimits := decrementActiveConnections s.ipLimits c.ip
      clients := Table.swapRemove s.clients ci }

/-- A dial to a peer that is not linked. -/
def checkPeer (s : ConnState) (ip : Str) : ConnState :=
  -- no place in the list: the dial waits for the next round
  if maxClients ≤ s.clients.length then s
  else { s with clients := s.clients ++ [{ ip, dialing := true }] }

/-- The end of a dial: up, or the connection is dropped. -/
def finishDial (s : ConnState) (ci : Nat) (up : Bool) : ConnState :=
  match s.clients[ci]? with
  | none => s
  | some c =>
    if !c.dialing then s
    else
      let s := { s with clients := s.clients.set ci { c with dialing := false } }
      if up then s else disconnectClient s ci

/-- The SSH gate: the console scope of the lists, then the SSH table. -/
def sshAdmit (s : ConnState) (ip : Str) (now : Int) (acl : Bool) : ConnState × Bool :=
  if !acl then (s, false)
  else if trustedLoopback s ip then (s, true)
  else
    let (tab, ok) := sshTableConnect s.sshIps s.connCfg ip now
    ({ s with sshIps := tab }, ok)

/-- First bytes of a connection: SSH goes to the console thread (when one runs), anything else is
the bot and peer protocol. Either way of SSH, the connection leaves the list. -/
def sniff (s : ConnState) (ci : Nat) (ssh console acl : Bool) (now : Int) : ConnState :=
  match s.clients[ci]? with
  | none => s
  | some c =>
    if !c.sniffPending then s
    else
      let s := { s with clients := s.clients.set ci { c with sniffPending := false } }
      if !ssh then s
      else
        let s := if console then (sshAdmit s c.ip now acl).1 else s
        disconnectClient s ci

/-- A console whose login holds (`creds`) takes its place in the list. -/
def openConsole (s : ConnState) (ip : Str) (now : Int) (creds : Bool) : ConnState :=
  if !creds then s
  -- the inner connection needs a place of its own
  else if maxClients ≤ s.clients.length then s
  else
    let s := openInbound s { ip, inbound := true, authenticated := true, internal := true } now
    -- the success is remembered for the address, past the end of the console
    if trustedLoopback s ip then s else { s with sshIps := sshTableSuccess s.sshIps ip now }

/-- A refused login of a bot or a peer. -/
def recordFailedAuth (s : ConnState) (ip : Str) (now : Int) : ConnState :=
  if trustedLoopback s ip then s
  else
    match findOrCreate s.ipLimits ip now with
    | (limits, none) => { s with ipLimits := limits }
    | (limits, some i) => { s with ipLimits := limits.modify i (failedAuthRow s.connCfg now) }

/-- A refused SSH login. -/
def sshFailed (s : ConnState) (ip : Str) (now : Int) : ConnState :=
  if trustedLoopback s ip then s
  else { s with sshIps := sshTableFailed s.sshIps s.connCfg ip now }

/-! ### Runs -/

/-- What happens to the connections of a hub. -/
inductive ConnEvent
  | accept (ip : Str) (now : Int) (acl known : Bool) (random : Option Nat)
  | dial (ip : Str)
  | dialled (ci : Nat) (up : Bool)
  | sniffed (ci : Nat) (ssh console acl : Bool) (now : Int)
  | console (ip : Str) (now : Int) (creds : Bool)
  | authenticated (ci : Nat)
  | failedAuth (ip : Str) (now : Int)
  | sshFailed (ip : Str) (now : Int)
  | disconnect (ci : Nat)
  | cleanup (now : Int)
  deriving Repr, DecidableEq

/-- One step. -/
def connStep (s : ConnState) : ConnEvent → ConnState
  | .accept ip now acl known random => acceptOne s ip now acl known random
  | .dial ip => checkPeer s ip
  | .dialled ci up => finishDial s ci up
  | .sniffed ci ssh console acl now => sniff s ci ssh console acl now
  | .console ip now creds => openConsole s ip now creds
  | .authenticated ci =>
      { s with clients := s.clients.modify ci fun c => { c with authenticated := true } }
  | .failedAuth ip now => recordFailedAuth s ip now
  | .sshFailed ip now => sshFailed s ip now
  | .disconnect ci => disconnectClient s ci
  | .cleanup now => { s with ipLimits := cleanupOldIpLimits s.ipLimits now }

/-- The hub after the events. -/
def connRun (s : ConnState) (evs : List ConnEvent) : ConnState := evs.foldl connStep s

end IrcHub.Hub
