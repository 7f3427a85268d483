import IrcHub.Hub.Checked
import IrcHub.Hub.RateLimit

/-!
# `IrcHub.Hub.SshTable`: blocks of the SSH address table, with their lengths

Blocks of the SSH address table, with their lengths, from `connlimits.rs`. Connections that are
SSH, refused logins and console logins that held, as they update the table, with what each tells
its caller: whether the connection is admitted and how long a block it started.

- `connectRow`, `failedRow`: a connection and a refused login, on the row of its address
- `startBlock`, `nextLevel`, `doubleSecs`: a block. Its length doubles for each block before it,
  up to the longest, while blocks follow one another within a day
- `Event`, `step`, `run`: one address at a time, and what the events of a run tell their callers

The arithmetic is checked, in 64 bits for times and in 32 bits for counters and lengths: `fitI64`
and `fitI32` fail on a result out of range. A time of 0 in a row stands for never.

`sshTableConnect` and its siblings in `IrcHub.Hub.RateLimit` are the same functions without the
lengths, as the connection gates use them. A theorem says that the two tables agree.
-/

set_option autoImplicit false

namespace IrcHub.Hub

namespace Ssh

/-- A result of 64-bit arithmetic. -/
def fitI64 (x : Int) : Except Fault Int := if i64Min ≤ x ∧ x ≤ i64Max then .ok x
    else .error .overflow

/-- A result of 32-bit arithmetic. -/
def fitI32 (x : Int) : Except Fault Int := if -2147483648 ≤ x ∧ x ≤ 2147483647 then .ok x
    else .error .overflow

/-- Whether something happened less than `span` seconds ago, 0 being never. -/
def within (last now span : Int) : Except Fault Bool :=
  if 0 < last then do
    let d ← fitI64 (now - last)
    .ok (decide (d < span))
  else .ok false

/-- Seconds doubled up to `n` times, while they are below the longest block. -/
def doubleSecs : Nat → Int → Except Fault Int
  | 0, secs => .ok secs
  | n + 1, secs =>
    if secs < sshBlockMax then do
      let secs ← fitI64 (secs * 2)
      doubleSecs n secs
    else .ok secs

/-- The level of the block that starts now. -/
def nextLevel (e : SshIp) (now : Int) : Except Fault Int := do
  let recent ← within e.lastBlock now sshBlockMemory
  if recent then (if e.level < 30 then fitI32 (e.level + 1) else .ok e.level) else .ok 0

/-- `start_block`: the row and the seconds of the block. -/
def startBlock (e : SshIp) (cfg : ConnCfg) (now : Int) : Except Fault (SshIp × Int) := do
  let level ← nextLevel e now
  let secs ← doubleSecs level.toNat (cfg .block)
  let blockedUntil ← fitI64 (now + min secs sshBlockMax)
  .ok ({ e with level, blockedUntil, lastBlock := now, connN := 0, failN := 0 },
    min secs sshBlockMax)

/-- What an event tells its caller. -/
structure Out where
  admitted : Bool := true
  /-- Seconds of a block that this very event started, 0 without one. -/
  started : Int := 0
  deriving Repr, DecidableEq

/-- A connection that is not exempt from the connect window. -/
def countConnect (cfg : ConnCfg) (now : Int) (e : SshIp) : Except Fault (SshIp × Out) := do
  let d ← fitI64 (now - e.winStart)
  let e := if cfg .connectS ≤ d then { e with winStart := now, connN := 0 } else e
  let n ← fitI32 (e.connN + 1)
  let e := { e with connN := n }
  if cfg .connectN < n then do
    let (e, secs) ← startBlock e cfg now
    .ok (e, { admitted := false, started := secs })
  else .ok (e, {})

/-- A connection, on the row of its address. -/
def connectRow (cfg : ConnCfg) (now : Int) (e : SshIp) : Except Fault (SshIp × Out) :=
  if now < e.blockedUntil then .ok (e, { admitted := false })
  else do
    let exempt ← within e.lastSuccess now sshSuccessMemory
    if exempt then .ok (e.unblocked, {}) else countConnect cfg now e.unblocked

/-- Whether the refused logins so far are too long ago to count. -/
def failsExpired (cfg : ConnCfg) (now : Int) (e : SshIp) : Except Fault Bool :=
  if 0 < e.failLast then do
    let d ← fitI64 (now - e.failLast)
    .ok (decide (cfg .authfailS < d))
  else .ok false

/-- A refused login that no block covers. -/
def countFail (cfg : ConnCfg) (now : Int) (e : SshIp) : Except Fault (SshIp × Out) := do
  let expired ← failsExpired cfg now e
  let e := if expired then { e with failN := 0 } else e
  let n ← fitI32 (e.failN + 1)
  let e := { e with failN := n, failLast := now }
  if cfg .authfailN ≤ n then do
    let (e, secs) ← startBlock e cfg now
    .ok (e, { admitted := false, started := secs })
  else .ok (e, { admitted := false })

/-- A refused login, on the row of its address. -/
def failedRow (cfg : ConnCfg) (now : Int) (e : SshIp) : Except Fault (SshIp × Out) :=
  if now < e.blockedUntil then .ok (e, { admitted := false }) else countFail cfg now e.unblocked

inductive Op
  | connect | failed | success
  deriving Repr, DecidableEq

/-- What happens on the row of an address. -/
def rowStep (cfg : ConnCfg) (now : Int) : Op → SshIp → Except Fault (SshIp × Out)
  | .connect, e => connectRow cfg now e
  | .failed, e => failedRow cfg now e
  | .success, e => .ok ({ e with lastSuccess := now }, {})

/-- One event of an address at a time. -/
structure Event where
  op : Op
  ip : Str
  now : Int
  deriving Repr, DecidableEq

/-- The table after an event, and what the event tells its caller. -/
def step (cfg : ConnCfg) (tab : List SshIp) (ev : Event) : Except Fault (List SshIp × Out) :=
  let (tab, i) := sshFind tab ev.ip ev.now
  match tab[i]? with
  | none => .ok (tab, {})
  | some e => do
    let (e, out) ← rowStep cfg ev.now ev.op e
    .ok (tab.set i e, out)

/-- What the events of a run tell their callers, one after the other. -/
def run (cfg : ConnCfg) : List SshIp → List Event → Except Fault (List Out)
  | _, [] => .ok []
  | tab, ev :: evs => do
    let (tab, out) ← step cfg tab ev
    let outs ← run cfg tab evs
    .ok (out :: outs)

end Ssh

end IrcHub.Hub
