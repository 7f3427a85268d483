import IrcHub.Lib.Ipv4

/-!
# `IrcHub.Hub.IpAcl`: the allow list and the deny list

The allow list and the deny list of `ratelimit.rs`. An entry is a network, written as an address
with the length of its prefix. Each entry is for one scope: every inbound connection, or the ones
to the console once their first bytes say SSH.

* `ipAclParse`: the entry of a pattern, `none` for anything that is not one. The entry has the
  canonical text of its network (`aclText`)
* `ipAclMatch`, `ipAclVerdict`: what the lists say of an address in a scope
* `aclPush`, `aclDrop`: an entry is added or removed. Two entries of the same network and scope
  are the same entry, however they were written (`IpAcl.sameNet`)
* `AclOp`, `runAcl`: changes of the lists, from the config or from an admin, one after the other

The deny list goes first. An allow list that has an entry for the scope lets in only what it
names, and one without any lets in everybody.
-/

set_option autoImplicit false

namespace IrcHub.Hub

open Str
open Ipv4 (Addr prefixMask)
open String (utf8Len)

/-- Room for `255.255.255.255/32` and its terminator. -/
abbrev ipAclPatternMax : Nat := 19

abbrev maxIpAclEntries : Nat := 64

/-- An entry of one of the lists. -/
structure IpAcl where
  pattern : Str := []
  net : Addr := 0
  mask : Addr := 0
  added : Int := 0
  console : Bool := false
  deriving Repr, DecidableEq

/-- The entry with a pattern, if there is room for it. -/
def IpAcl.setPattern (e : IpAcl) (s : Str) : Option IpAcl :=
  if ipAclPatternMax ≤ utf8Len s then none else some { e with pattern := s }

/-- Same network, prefix and scope. -/
def IpAcl.sameNet (e other : IpAcl) : Bool :=
  e.net == other.net && e.mask == other.mask && e.console == other.console

/-- One or two digits, no sign, blank or leading zero. -/
def prefixShape : Str → Bool
  | [d] => d.isDigit
  | [d, e] => d.isDigit && e.isDigit && d != '0'
  | _ => false

/-- The length after the slash, at most 32. -/
def aclPrefix (p : Str) : Option Nat :=
  if prefixShape p && Nat.ofDigitChars 10 p 0 ≤ 32 then some (Nat.ofDigitChars 10 p 0) else none

/-- The address and the length a pattern gives, the length 32 without a slash. -/
def aclParts (input : Str) : Option (Str × Nat) :=
  match splitOnce '/' input with
  | none => some (input, 32)
  | some (addr, p) => (aclPrefix p).map fun n => (addr, n)

/-- The canonical text of a network. -/
def aclText (net : Addr) (n : Nat) : Str :=
  if n = 32 then Ipv4.format net else Ipv4.format net ++ '/' :: Nat.toDigits 10 n

/-- The entry of a pattern, `none` for anything that is not one. -/
def ipAclParse (input : Str) : Option IpAcl :=
  if input.isEmpty || ipAclPatternMax ≤ utf8Len input then none
  else do
    let (addr, n) ← aclParts input
    let a ← Ipv4.parse addr
    let net := a &&& prefixMask n
    ({ net, mask := prefixMask n } : IpAcl).setPattern (aclText net n)

/-! ### The lists -/

/-- Both lists of a hub. -/
structure IpAcls where
  allow : List IpAcl := []
  deny : List IpAcl := []
  deriving Repr

/-- Whether an entry of the scope takes the address. -/
def ipAclMatch (list : List IpAcl) (addr : Addr) (console : Bool) : Bool :=
  list.any fun e => e.console == console && addr &&& e.mask == e.net

def ipAclScopeCount (list : List IpAcl) (console : Bool) : Nat := list.countP fun e =>
  e.console == console

/-- 0 for permitted, 1 for on the deny list, 2 for not on an allow list that has entries. -/
def ipAclVerdict (s : IpAcls) (ip : Str) (console : Bool) : Nat :=
  let parsed := Ipv4.parse ip
  let addr := parsed.getD 0
  if 0 < ipAclScopeCount s.deny console && (parsed.isNone || ipAclMatch s.deny addr console)
    then 1
  else if 0 < ipAclScopeCount s.allow console
    && (parsed.isNone || !ipAclMatch s.allow addr console) then 2
  else 0

def ipAclPermits (s : IpAcls) (ip : Str) : Bool := ipAclVerdict s ip false == 0

def ipAclPermitsConsole (s : IpAcls) (ip : Str) : Bool := ipAclVerdict s ip true == 0

inductive IpAclAdd
  | added | duplicate | full | badList
  deriving Repr, DecidableEq

/-- One more entry on a list, if it is not there yet and the list has room. -/
def aclPush (l : List IpAcl) (e : IpAcl) : List IpAcl × IpAclAdd :=
  if l.any (·.sameNet e) then (l, .duplicate)
  else if maxIpAclEntries ≤ l.length then (l, .full)
  else (l ++ [e], .added)

def ipAclAdd (s : IpAcls) (list : Char) (e : IpAcl) : IpAcls × IpAclAdd :=
  if list = 'w' then ({ s with allow := (aclPush s.allow e).1 }, (aclPush s.allow e).2)
  else if list = 'x' then ({ s with deny := (aclPush s.deny e).1 }, (aclPush s.deny e).2)
  else (s, .badList)

/-- A list without the first entry of the same network, and whether there was one. -/
def aclDrop (l : List IpAcl) (e : IpAcl) : List IpAcl × Bool :=
  match l.findIdx? (·.sameNet e) with
  | some i => (l.eraseIdx i, true)
  | none => (l, false)

def ipAclRemove (s : IpAcls) (list : Char) (e : IpAcl) : IpAcls × Bool :=
  if list = 'w' then ({ s with allow := (aclDrop s.allow e).1 }, (aclDrop s.allow e).2)
  else if list = 'x' then ({ s with deny := (aclDrop s.deny e).1 }, (aclDrop s.deny e).2)
  else (s, false)

/-- A change of the lists, from a line of the config or a command of an admin. -/
inductive AclOp
  | add (list : Char) (text : Str) (console : Bool) (added : Int)
  | remove (list : Char) (text : Str) (console : Bool)

/-- The lists after a change. A text that is no pattern changes nothing. -/
def AclOp.apply (s : IpAcls) : AclOp → IpAcls
  | .add list text console added =>
    match ipAclParse text with
    | some e => (ipAclAdd s list { e with console, added }).1
    | none => s
  | .remove list text console =>
    match ipAclParse text with
    | some e => (ipAclRemove s list { e with console }).1
    | none => s

/-- The lists after changes, from empty ones on. -/
def runAcl (ops : List AclOp) : IpAcls := ops.foldl AclOp.apply {}

end IrcHub.Hub
