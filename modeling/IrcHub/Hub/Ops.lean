import IrcHub.Hub.Console
import IrcHub.Hub.Push

/-!
# `IrcHub.Hub.Ops`: runs of a hub

Everything that changes the replicated state of a running hub, as one type of operations: frames
of peers and bots, commands of admins, and what the hub does by itself. Payloads are what arrived;
a command reads them up to the first NUL.

* `HubOp`: the operations, each with its input and whatever was drawn for it
* `HubOp.run`: what one does. `none` when the hub crashes
* `HubEvent`: an operation and the time it runs at
* `runHub`: a run from the empty hub, events in order

Results about every reachable state are about `runHub`. A property of a run is shown for each
operation, and an operation that is several writes is in turn shown write by write.

Times are 64-bit numbers, so an event carries an `I64`. Nothing is assumed of the order of the
times: a clock may be set back, and the hubs of a mesh have clocks of their own.
-/

set_option autoImplicit false

namespace IrcHub.Hub

/-- A 64-bit integer. -/
def InI64 (x : Int) : Prop := i64Min ≤ x ∧ x ≤ i64Max

instance (x : Int) : Decidable (InI64 x) := inferInstanceAs (Decidable (_ ∧ _))

/-- The values of a 64-bit integer. -/
abbrev I64 := { x : Int // InI64 x }

/-- The time the examples run at is a 64-bit one. -/
theorem inI64_runTime : InI64 1700000000 := by decide

/-- What changes the state of a running hub. -/
inductive HubOp
  /-- A sync frame of a peer. -/
  | peerSync (frame : Str)
  /-- A config push of the bot `id`. -/
  | push (id frame : Str)
  /-- A delta of the bot `id`. -/
  | delta (id frame : Str)
  /-- `user add admin` or `user add oper`, with the random bytes of the new uuid. -/
  | userAdd (admin : Bool) (payload : Str) (random : Fin 16 → UInt8)
  | userDel (payload : Str)
  | maskAdd (payload : Str)
  | maskDel (payload : Str)
  | userKey (payload : Str)
  | userAccess (payload : Str)
  | chanAdd (payload : Str)
  | chanDel (payload : Str)
  /-- `channel mode` and `channel set`, with the modes and settings they come to. -/
  | chanset (chan modes settings : Str)
  /-- `network set`, with the modes and settings it comes to. -/
  | netset (modes settings : Str)
  | banAdd (chan mask : Str) (expires : Int) (sticky : Bool) (setter reason : Str)
  | banDel (chan mask : Str)
  | botAdd (payload : Str)
  | botDel (payload : Str)
  | optSet (payload : Str)
  | purgeDays (payload : Str)
  | purge (payload id : Str)
  /-- An upgrade run starts or ends a freeze. -/
  | freeze (on : Bool)
  /-- The daily purge. -/
  | autopurge (id : Str)
  /-- Delete the expired bans. -/
  | sweep
  /-- A login of an admin, or activity a peer reported. -/
  | activity (slot : Slot) (ts : I64)
  /-- A bot logged in. -/
  | seen (id : Str) (ts : I64)
  /-- A revoked bot wiped itself. -/
  | wiped (id : Str)

/-- One operation, `none` when the hub crashes. -/
def HubOp.run (clk : Clock) (s : HubState) : HubOp → Option HubState
  | .peerSync frame => processPeerSync clk s frame
  | .push id frame => processBotConfigPush clk s id frame
  | .delta id frame => processBotDelta clk s id frame
  | .userAdd admin payload random =>
    some (addUserRecord clk s (untilNul payload) (if admin then 'a' else 'o') (genUuidV4 random))
  | .userDel payload => some (delUserRecord clk s (untilNul payload))
  | .maskAdd payload => some (addUsermask clk s (untilNul payload))
  | .maskDel payload => some (delUsermask clk s (untilNul payload))
  | .userKey payload => some (setUserkey clk s (untilNul payload))
  | .userAccess payload => some (Hub.userAccess clk s (untilNul payload))
  | .chanAdd payload => some (addChannel clk s (untilNul payload))
  | .chanDel payload => some (delChannel clk s (untilNul payload))
  | .chanset chan modes settings => some (chansetPut clk s chan modes settings).1
  | .netset modes settings => some (netsetPut clk s modes settings).1
  | .banAdd chan mask expires sticky setter reason =>
    some (Hub.banAdd clk s chan mask expires sticky setter reason).1
  | .banDel chan mask => some (Hub.banDel clk s chan mask).1
  | .botAdd payload => createBotCmd clk s (untilNul payload)
  | .botDel payload => deleteBot clk s (untilNul payload)
  | .optSet payload => some (setOptFlags clk s (untilNul payload))
  | .purgeDays payload => some (setPurgeDays clk s (untilNul payload))
  | .purge payload id => some (purgeTombstones clk s (untilNul payload) id)
  | .freeze on => some (optFlagSet clk s 'F' on)
  | .autopurge id =>
    some (if s.purgeDaysSetting > 0 then
        purgeAndBroadcast clk s (clk.now - s.purgeDaysSetting * 86400) id
      else s)
  | .sweep => some (bansSweep clk s)
  | .activity slot ts => some (raise clk s slot ts)
  | .seen id ts => (updateEntry clk s id BotKey.seen.name [] [] [] ts).map (·.1)
  | .wiped id => some (revokeMarkWiped s id clk.now)

/-- An operation and the time it runs at. -/
structure HubEvent where
  now : I64
  op : HubOp

/-- The clock of an event. -/
def HubEvent.clock (e : HubEvent) : Clock := { now := e.now }

/-- One event of a hub that may have crashed. -/
def hubStep (s : Option HubState) (e : HubEvent) : Option HubState := s.bind (e.op.run e.clock)

/-- A run from the empty hub: events in order. -/
def runHub (es : List HubEvent) : Option HubState := es.foldl hubStep (some {})

end IrcHub.Hub
