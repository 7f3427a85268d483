import IrcHub.Hub.Cstr
import IrcHub.Hub.IpAcl

/-!
# `IrcHub.Hub.AclFile`: the access lists in the config

How the allow and deny lists of `ratelimit.rs` are kept in the config file. The config holds one
line for each entry: its key names the list and the scope, its body is the pattern and the time it
was added.

* `aclLines`: the lines of both lists, in the order they are written
* `loadIpAclLine`: reads a body, and says whether the line may stay in the file as it is written
* `loadAcls`: reads the lines of a config and counts those that may not, which has the file
  written again

The reader also takes a body with an op after the pattern (`aclHead`), which the writer never
writes. Such a line is among those that do not stay as they are.

A pattern that does not parse is dropped, and so is one that is on the list already. A full list
takes nothing more. In each case the hub starts with what it could read.

Left out: the lines of the config that are about something else, and the log.
-/

set_option autoImplicit false

namespace IrcHub.Hub

open Str

/-- The key of a line: `w` to allow and `x` to deny, with a `c` for the scope of the console. -/
def aclKey (list : Char) (console : Bool) : Str := if console then [list, 'c'] else [list]

def aclLine (list : Char) (e : IpAcl) : Str :=
  aclKey list e.console ++ '|' :: (e.pattern ++ '|' :: ofInt e.added)

/-- The lines of both lists, in the order they are written. -/
def aclLines (s : IpAcls) : List Str := s.allow.map (aclLine 'w') ++ s.deny.map (aclLine 'x')

/-- The pattern, and the op after it, which is never written. -/
def aclHead (head : Str) : Str × Option Str :=
  match splitOnce '|' head with
  | some (pattern, op) => (pattern, some op)
  | none => (head, none)

/-- Body of a line into a list: a pattern that does not parse is dropped. -/
def loadIpAclLine (s : IpAcls) (list : Char) (v : Str) (console : Bool) : IpAcls × Bool :=
  match rsplitOnce '|' v with
  | none => (s, false)
  | some (head, stamp) =>
    let p := aclHead head
    if p.2.any fun op => op != "add".toList then (s, false)
    else
      match ipAclParse p.1 with
      | none => (s, false)
      | some e =>
        let e := { e with added := atoll stamp, console }
        let r := ipAclAdd s list e
        (r.1, r.2 == .added && p.2.isNone && p.1 == e.pattern)

/-- Key and body of a line: around its first bar, or its first colon where it has no bar. -/
def configLine (line : Str) : Option (Str × Str) :=
  match splitOnce '|' line with
  | some p => some p
  | none => splitOnce ':' line

/-- The lists and the number of lines to write again, after one more line. -/
def loadAclLine (p : IpAcls × Nat) (line : Str) : IpAcls × Nat :=
  match configLine line with
  | none => p
  | some (k, v) =>
    if k = ['g'] then
      -- the older layout, which is always written again
      match v with
      | list :: '|' :: body =>
        if list = 'w' ∨ list = 'x' then ((loadIpAclLine p.1 list body false).1, p.2 + 1) else p
      | _ => p
    else if k = ['w'] ∨ k = ['x'] ∨ k = ['w', 'c'] ∨ k = ['x', 'c'] then
      let r := loadIpAclLine p.1 (k.headD 'w') v (k.length == 2)
      (r.1, if r.2 then p.2 else p.2 + 1)
    else p

/-- The lists a config gives, and the number of its lines that do not stay as they are. -/
def loadAcls (lines : List Str) : IpAcls × Nat := lines.foldl loadAclLine ({}, 0)

end IrcHub.Hub
