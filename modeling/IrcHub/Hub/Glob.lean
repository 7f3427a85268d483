import IrcHub.Lib.Str

/-!
# `IrcHub.Hub.Glob`: hostmask patterns

Hostmask patterns, from `glob_overlap.rs` and `modes.rs`. A pattern has `*` for any run of bytes
and `?` for any one byte. Everything works on bytes and ignores ASCII case.

- `globMatch`: whether a pattern matches a text, by the loop of the source, which goes back to the
  last star when a byte does not fit
- `globOverlap`: whether two patterns have a text in common, by a table over the suffixes of both,
  one row at a time (`overlapRow`)
- `hostmaskOverlap`: the same of the nick, user and host parts of two masks

Two patterns too long for the table overlap by definition: the caller uses the answer to refuse,
so the safe answer is yes. `hostmaskOverlap` has a shortcut in front of the table for the host
part: a host pattern that can only be an address has nothing in common with one that can only be a
name (`hostKind`).
-/

set_option autoImplicit false

namespace IrcHub.Hub

open Str

/-- The bytes of a text. -/
def bytesOf (s : Str) : List UInt8 := s.flatMap String.utf8EncodeChar

/-- A byte with ASCII capitals folded. -/
def gfold (c : UInt8) : UInt8 := if 65 ≤ c && c ≤ 90 then c + 32 else c

/-- Any run of bytes. -/
abbrev globStar : UInt8 := 42

/-- Any one byte. -/
abbrev globAny : UInt8 := 63

/-! ### Matching -/

/-- The matching loop at pattern position `pi` and text position `si`. `back` is the last star
and where its run ends so far; a mismatch gives the run one more byte. -/
def globMatchLoop (p s : List UInt8) : Nat → Nat → Nat → Option (Nat × Nat) → Bool
  | 0, _, _, _ => false
  | fuel + 1, pi, si, back =>
    match s[si]? with
    | none => (p.drop pi).all (· == globStar)
    | some c =>
      match p[pi]?, back with
      | some x, _ =>
        if x == globStar then globMatchLoop p s fuel (pi + 1) si (some (pi, si))
        else if x == globAny || gfold x == gfold c then globMatchLoop p s fuel (pi + 1)
          (si + 1) back
        else
          match back with
          | some (st, mark) => globMatchLoop p s fuel (st + 1) (mark + 1) (some (st, mark + 1))
          | none => false
      | none, some (st, mark) => globMatchLoop p s fuel (st + 1) (mark + 1) (some (st, mark + 1))
      | none, none => false

/-- Whether a pattern matches a text. Each byte of the text is tried against the pattern at most
once per start of a run, so the fuel is enough. -/
def globMatch (pat s : Str) : Bool :=
  let p := bytesOf pat
  let t := bytesOf s
  globMatchLoop p t ((t.length + 2) * (t.length + p.length + 2)) 0 0 none

/-! ### Overlap -/

/-- Longest pattern the overlap looks at. -/
abbrev globOverlapMax : Nat := 256

/-- One row of the overlap table, over the suffixes of `b`: whether they share a text with `x`
followed by the pattern of the row `next`. Without `x` the pattern is empty. -/
def overlapRow (x : Option UInt8) : List UInt8 → List Bool → List Bool
  | [], next => [match x with
      | none => true
      | some c => c == globStar && next.headD false]
  | y :: b, next =>
    let below := next.headD false
    let cur := overlapRow x b next.tail
    let right := cur.headD false
    let diag := next.tail.headD false
    let sa := x == some globStar
    let sb := y == globStar
    let same := match x with
      | none => false
      | some c => !sa && !sb && (c == globAny || y == globAny || gfold c == gfold y) && diag
    ((sa && (below || right)) || (sb && (right || (x.isSome && below))) || same) :: cur

/-- Whether two patterns have a text in common. Too long a pattern overlaps everything. -/
def globOverlap (a b : List UInt8) : Bool :=
  if a.length > globOverlapMax || b.length > globOverlapMax then true
  else (a.foldr (fun c next => overlapRow (some c) b next) (overlapRow none b [])).headD false

/-- What a host pattern can match. -/
inductive HostKind
  | address | name | either
  deriving Repr, DecidableEq

/-- A colon or only digits and wildcards is an address, any other symbol a name. -/
def hostKind (h : Str) : HostKind :=
  if h.contains ':' then .address
  else if h.any fun c => !c.isDigit && !".*?".toList.contains c then .name
  else if h.any Char.isDigit then .address
  else .either

/-- Nick, user and host of a mask. -/
def maskParts (m : Str) : Option (Str × Str × Str) :=
  match splitOnce '!' m with
  | none => none
  | some (nick, rest) => (splitOnce '@' rest).map fun p => (nick, p.1, p.2)

/-- Whether two hostmask patterns have a hostmask in common. -/
def hostmaskOverlap (a b : Str) : Bool :=
  match maskParts a, maskParts b with
  | some (an, au, ah), some (bn, bu, bh) =>
    if (bytesOf a).length ≤ globOverlapMax && (bytesOf b).length ≤ globOverlapMax then
      (hostKind ah = .either || hostKind bh = .either || hostKind ah = hostKind bh)
        && globOverlap (bytesOf an) (bytesOf bn) && globOverlap (bytesOf au) (bytesOf bu)
        && globOverlap (bytesOf ah) (bytesOf bh)
    else globOverlap (bytesOf a) (bytesOf b)
  | _, _ => globOverlap (bytesOf a) (bytesOf b)

end IrcHub.Hub
