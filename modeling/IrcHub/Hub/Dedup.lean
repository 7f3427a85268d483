import IrcHub.Hub.Purge
import IrcHub.Hub.Users

/-!
# `IrcHub.Hub.Dedup`: one record per user name

The merge of double users in `config.rs`. Hubs that created a user of the same name on their own
hold two live records of it. When the config is loaded `dedupRecords` keeps one of them:

* it walks the users in table order, lets the records of one name meet one after the other, and
  notes each loser and what it lost to (`dedupUser`)
* flags and bindings follow every note in order
* a usermask follows the first note of its owner (`remapOwner`, `dedupMask`)

So a record whose winner lost later on is noted with a target that is itself noted. The two ways
of following the notes differ there: one goes on to the last target, the other stops at the first.

`DedupAcc` is the state of the walk, the users kept so far and the notes. Two live records are of
one user if their names are equal up to the case of letters and their kinds are the same
(`sameUser`); a tombstone is a past incarnation and keeps to itself.

Not modelled: the log lines.
-/

set_option autoImplicit false

namespace IrcHub.Hub

open Str
open String (utf8Len)

/-- The walk over the users: those kept so far, and who lost to whom. -/
structure DedupAcc where
  users : List UserRecord := []
  remap : List (Str × Str) := []
  deriving Repr, DecidableEq

/-- Two live records of one user. A tombstone is a past incarnation and keeps its own uuid. -/
def sameUser (u w : UserRecord) : Bool :=
  u.isActive && w.isActive && w.typ == u.typ && eqIc w.name u.name

/-- One user of the table: it is new, or it meets the record that is kept of its name. -/
def dedupUser (acc : DedupAcc) (u : UserRecord) : DedupAcc :=
  match acc.users.findIdx? (sameUser u) with
  | none => { acc with users := acc.users ++ [u] }
  | some j =>
    match acc.users[j]? with
    | none => acc
    | some w =>
      let wins := incomingWins u w
      { users := if wins then acc.users.set j u else acc.users
        remap :=
          if acc.remap.length < maxHubUserRecords then
            acc.remap ++ [if wins then (w.uuid, u.uuid) else (u.uuid, w.uuid)]
          else acc.remap }

/-- The owner of a mask once the users were merged: what the first note of its uuid says. -/
def remapOwner (remap : List (Str × Str)) (uuid : Str) : Str :=
  match remap.find? fun p => p.1 == uuid with
  | some p => p.2
  | none => uuid

/-- One mask of the table: dropped without an owner, and of two equal masks of an owner the one
used later stays. -/
def dedupMask (users : List UserRecord) (remap : List (Str × Str)) (masks : List MaskRecord)
    (m : MaskRecord) : List MaskRecord :=
  let m := { m with uuid := remapOwner remap m.uuid }
  if !users.any (fun u => u.uuid == m.uuid) then masks
  else
    match masks.findIdx? fun w => w.uuid == m.uuid && eqIc w.mask m.mask with
    | some j =>
      match masks[j]? with
      | none => masks
      | some w => if m.lastUsed > w.lastUsed then masks.set j m else masks
    | none => if masks.length < maxHubUserMasks then masks ++ [m] else masks

/-- One live record per name and type, and what the records of the losers become. Also whether
a user or a mask went. -/
def dedupRecords (clk : Clock) (s : HubState) : HubState × Bool :=
  let acc := s.userRecords.foldl dedupUser {}
  let t := acc.remap.foldl (fun t p => remapUuid clk t p.1 p.2) s
  let masks := s.maskRecords.foldl (dedupMask acc.users acc.remap) []
  ({ t with userRecords := acc.users, maskRecords := masks },
    decide (acc.users.length ≠ s.userRecords.length)
      || decide (masks.length ≠ s.maskRecords.length))

end IrcHub.Hub
