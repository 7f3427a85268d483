import IrcHub.Hub.RateLimit
import IrcHub.Hub.Users

/-!
# `IrcHub.Hub.Login`: admins that log in over SSH

Admins that log in over SSH. The SSH side of the console checks a login against a list of names
and keys that the hub publishes (`buildCreds`). What it let in comes to the hub under its name
alone, and the hub looks the admin up again (`openConsoleAs`).

* `Cred`: an admin that may log in, as published
* `pushCred`: the turn of one record. It is published if it is a live admin with a key that no
  other live admin has, and its name as it fits the buffer
* `adminByName`: the admin of a name, the first live one of the table
* `openConsoleAs`: the session of an admin that was let in, `none` when the hub refuses it

An SSH key is one half of the key of a user, and the other half is for the bot protocol. The two
sides agree on who logs in exactly as far as name and key tell the same record, and the name that
is published may be a cut one.
-/

set_option autoImplicit false

namespace IrcHub.Hub

open Str
open String (utf8Len)

/-- Room for the name of an admin. -/
abbrev consoleNameMax : Nat := 64

/-- An admin that may log in, as published. -/
structure Cred where
  name : Str
  edPub : List Nat
  deriving Repr, DecidableEq

/-- `v` is a live admin with the key of `u`. -/
def sameKey (u v : UserRecord) : Bool := v.typ == 'a' && v.isActive && v.hasPubkey
    && v.pubkeyB64 == u.pubkeyB64

/-- The turn of one record. -/
def pushCred (s : HubState) (out : List Cred) (u : UserRecord) : List Cred :=
  if u.typ != 'a' || !u.isActive || !u.hasPubkey || u.name.isEmpty then out
  else
    match pubkeyB64Decode u.pubkeyB64 with
    | none => out
    | some pk =>
      if s.userRecords.countP (sameKey u) ≠ 1 || out.length ≥ maxHubUserRecords then out
      else out ++ [{ name := trunc u.name (consoleNameMax - 1), edPub := pk.take 32 }]

/-- The admins that may log in: active admin records with a key, each key on exactly one of
them. -/
def buildCreds (s : HubState) : List Cred := s.userRecords.foldl (pushCred s) []

/-- The admin of a name. -/
def adminByName (s : HubState) (name : Str) : Option Nat :=
  s.userRecords.findIdx? fun u => u.typ == 'a' && u.isActive && u.name == name

/-- Activity of a user, seen by the hub itself. -/
def stampUser (s : HubState) (ui : Nat) (t : Int) : HubState :=
  { s with userRecords := s.userRecords.modify ui fun u => if t ≤ u.lastSeen then u
           else { u with lastSeen := t } }

/-- The session of an admin. -/
structure ConsoleLink where
  id : Str
  admin : Str
  edPub : List Nat
  ip : Str
  deriving Repr, DecidableEq

/-- The SSH side let `name` in, and the hub has `clients` connections: what `openConsole` takes as
given. `none` when the hub refuses. -/
def openConsoleAs (clk : Clock) (s : HubState) (clients : Nat) (name ip : Str) :
    Option (HubState × ConsoleLink) :=
  let pk := (adminByName s name).bind fun ui => (s.userRecords[ui]?).bind fun u =>
    if u.hasPubkey then (pubkeyB64Decode u.pubkeyB64).map (ui, ·) else none
  match pk with
  | none => none
  | some (ui, pk) =>
    if utf8Len name + utf8Len "ADMIN:".toList ≥ 64 then none
    else if clients ≥ maxClients then none
    else some (stampUser s ui clk.now,
      { id := "ADMIN:".toList ++ name, admin := name, edPub := pk.take 32, ip := ip })

end IrcHub.Hub
