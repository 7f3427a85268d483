import IrcHub.Hub.Checked
import IrcHub.Hub.Cstr

/-!
# `IrcHub.Hub.ParseUint`: the number fields of admin requests, in 64-bit arithmetic

The number fields of admin requests, in 64-bit arithmetic (`state.rs`). `parseUintU64` is
`parse_uint` with every operation of its loop, each of which may fault: the loop multiplies and
adds before it compares with the limit, and guards the product by a difference that itself may go
below zero.

* `digitU64`: the number a digit stands for
* `parseUintFrom`: the digits after those that made a value
* `parseUintU64`: one to ten decimal digits and nothing else, at most the limit
* `subscribeLog`: the one caller whose limit is a single digit

The plain `parseUint` of `IrcHub.Hub.Cstr` is what the other models use; a theorem says where the
two agree.
-/

set_option autoImplicit false

namespace IrcHub.Hub

open Str
open String (utf8Len)

/-! ### The reader -/

/-- The number a digit stands for. -/
def digitU64 (c : Char) : UInt64 := UInt64.ofNat (c.toNat - '0'.toNat)

/-- The digits after those that made `v`. -/
def parseUintFrom (max : UInt64) : UInt64 → Str → Except Fault (Option UInt64)
  | v, [] => .ok (some v)
  | v, c :: rest =>
    if !c.isDigit then .ok none
    else do
      let room ← subU64 max (digitU64 c)
      if room / 10 < v then return none
      let ten ← mulU64 v 10
      let next ← addU64 ten (digitU64 c)
      parseUintFrom max next rest

/-- One to ten decimal digits and nothing else, at most `max`. -/
def parseUintU64 (s : Str) (max : UInt64) : Except Fault (Option UInt64) :=
  if s.isEmpty || utf8Len s > 10 then .ok none else parseUintFrom max 0 s

/-! ### Log subscriptions -/

/-- The most verbose log level. -/
def logDebug : UInt64 := 4

/-- What one topic of a subscription says about log lines: `log=<level>`, other topics nothing. -/
def subscribeLog (topic : Str) : Except Fault (Option UInt64) :=
  if "log=".toList.isPrefixOf topic then parseUintU64 (topic.drop 4) logDebug else .ok none

end IrcHub.Hub
