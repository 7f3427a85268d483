import IrcHub.Hub.Activity
import IrcHub.Hub.Purge

/-!
# `IrcHub.Hub.Store`: runs of the global table

Everything the hub does to its global table is one of the operations here, each under the clock it
runs at. Peer syncs, bot pushes, deltas, console edits and the config load all end in them;
whatever else they do leaves the table and its index alone (`StoreOp.elsewhere`).

* `StoreOp`: the operations on the global table, with their arguments
* `StoreOp.run`: one of them, `runStore`: several in order
* `StoreReachable`: the hub states a run reaches from the empty store

A run here is a run of the store alone, and more states are reachable in it than by the frames and
commands of `IrcHub.Hub.Ops`: `elsewhere` may put anything into the other tables. What holds of
every such state holds of every state of a hub.
-/

set_option autoImplicit false

namespace IrcHub.Hub

/-- The operations on the global table. -/
inductive StoreOp
  /-- Compose and store a `c`, `m` or `o` record. -/
  | update (key : GlobalKey) (value extra op : Str) (ts : Int)
  /-- Store a `C`, `D` or `B` record. -/
  | put (key : GlobalKey) (value : Str) (ts : Int)
  /-- Store a record as it arrived over the wire. -/
  | raw (key : GlobalKey) (value : Str) (ts : Int)
  /-- Delete the records of a channel. -/
  | cascade (chan : Str) (ts : Int) (announce : Bool)
  /-- Delete the expired bans. -/
  | sweep
  /-- Purge the tombstones below a cutoff. -/
  | purge (cutoff : Int)
  /-- Remove the records of channels without a live record. -/
  | orphans
  /-- Raise the last use of the ban at a position. -/
  | banUsed (i : Nat) (ts : Int)
  /-- Any change that leaves the global table and its index alone. -/
  | elsewhere (t : HubState)

/-- One operation. -/
def StoreOp.run (clk : Clock) (s : HubState) : StoreOp → HubState
  | .update key value extra op ts => (updateGlobalEntry clk s key value extra op ts).1
  | .put key value ts => (putRecord clk s key value ts).1
  | .raw key value ts => (storeGlobalEntryRaw clk s key value ts).1
  | .cascade chan ts announce => (chanCascadeDel clk s chan ts announce).1
  | .sweep => bansSweep clk s
  | .purge cutoff => executePurge clk s cutoff
  | .orphans => purgeChanOrphans s
  | .banUsed i ts => raise clk s (.ban i) ts
  | .elsewhere t => { t with globalEntries := s.globalEntries, globalIdx := s.globalIdx }

/-- A run: operations in order, each under its clock. -/
def runStore (s : HubState) (ops : List (Clock × StoreOp)) : HubState :=
  ops.foldl (fun s p => p.2.run p.1 s) s

/-- The hub states a run reaches from the empty store. -/
def StoreReachable (s : HubState) : Prop := ∃ ops, runStore {} ops = s

end IrcHub.Hub
