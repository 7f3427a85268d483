import IrcHub.Lib.Str

/-!
# `IrcHub.Hub.Cstr`: the C string rules the protocol depends on

The C string rules the protocol depends on, from `cstr.rs`. The hub speaks to programs written in
C, and reads numbers, fields and keys the way those do.

* `strtoll`: a decimal number the way the C library reads it, saturating at the ends of the 64-bit
  range. It also says how many bytes it took
* `atoll`, `atoi`: its value, the latter narrowed to 32 bits
* `parseUint`: the strict reader, up to ten digits and at most a given number
* `untilNul`: what a C string handler sees of a text
* `field`: a field of a bar-separated text, cut to what a buffer takes
* `sscanf`: a scan by a format. The conversions made before the first failure count
* `b64Decode`: the bytes of a key, of the one padding that keys have

The readers take any text. Where C leaves a behaviour open the source fixes one, and the model has
that. `IrcHub.Hub.Strtoll` has the same reader byte by byte, with its arithmetic checked.
-/

set_option autoImplicit false

namespace IrcHub.Hub

open Str
open String (utf8Len)

/-- Least 64-bit integer. -/
abbrev i64Min : Int := -9223372036854775808

/-- Greatest 64-bit integer. -/
abbrev i64Max : Int := 9223372036854775807

/-- A sum or product that leaves the 64-bit range is no value. -/
def checkI64 (x : Int) : Option Int := if i64Min ≤ x ∧ x ≤ i64Max then some x else none

/-- White space of the C locale. -/
def isCSpace (c : Char) : Bool :=
  c == ' ' || c == '\t' || c == '\n' || c.toNat == 0x0b || c.toNat == 0x0c || c == '\r'

/-- One more digit. Once the range is left, the rest of the digits does not matter. -/
def strtollStep (neg : Bool) (acc : Option Int) (c : Char) : Option Int := do
  let v ← acc
  let x ← checkI64 (v * 10)
  let d : Int := c.toNat - '0'.toNat
  checkI64 (if neg then x - d else x + d)

/-- Sign of a number, and what follows it. -/
def strtollSign : Str → Bool × Nat × Str
  | '+' :: s => (false, 1, s)
  | '-' :: s => (true, 1, s)
  | s => (false, 0, s)

/-- Value of the number at the start of the text and the number of bytes it takes, 0 bytes
when there are no digits. -/
def strtoll (s : Str) : Int × Nat :=
  let ws := s.takeWhile isCSpace
  let (neg, signLen, t) := strtollSign (s.dropWhile isCSpace)
  let digits := t.takeWhile Char.isDigit
  if digits.isEmpty then (0, 0)
  else
    let v := match digits.foldl (strtollStep neg) (some 0) with
      | some v => v
      | none => if neg then i64Min else i64Max
    (v, ws.length + signLen + digits.length)

/-- Value of the number at the start of the text, 0 without one. -/
def atoll (s : Str) : Int := (strtoll s).1

/-- The low 32 bits of a number, as a signed number. -/
def toI32 (x : Int) : Int := (x + 2147483648) % 4294967296 - 2147483648

/-- `atoll` narrowed to 32 bits. -/
def atoi (s : Str) : Int := toI32 (atoll s)

/-- A whole number of up to ten digits, at most `max`. -/
def parseUint (s : Str) (max : Int) : Option Int :=
  if s.isEmpty || utf8Len s > 10 || !s.all Char.isDigit || atoll s > max then none
  else some (atoll s)

/-- The text before its first NUL. -/
def untilNul (s : Str) : Str := s.takeWhile (· != '\x00')

/-- Field `idx` of a bar-separated text, cut to what a buffer of `cap` bytes holds. -/
def field (v : Str) (idx cap : Nat) : Str :=
  match (v.splitOn '|')[idx]? with
  | some f => trunc f cap
  | none => []

/-- One more, but never past the range. -/
def satSucc (x : Int) : Int := min (x + 1) i64Max

/-- 36 bytes with dashes in the places of a uuid. -/
def hasUuidDashes (s : Str) : Bool :=
  decide (utf8Len s = 36) && [8, 13, 18, 23].all fun i => byteAt s i == some '-'

/-! ### Scanning -/

/-- One directive of a scan: one to `n` bytes up to a bar, a literal, or a number. -/
inductive Fmt
  | set (n : Nat)
  | lit (c : Char)
  | int
  deriving Repr, DecidableEq

/-- One conversion of a scan. -/
inductive Conv
  | s (t : Str)
  | i (v : Int)
  deriving Repr, DecidableEq

/-- The text of a conversion. -/
def Conv.text : Conv → Str
  | .s t => t
  | .i _ => []

/-- The number of a conversion. -/
def Conv.num : Conv → Int
  | .s _ => 0
  | .i v => v

/-- The conversions made before the first failure. -/
def sscanf : Str → List Fmt → List Conv
  | _, [] => []
  | input, .set n :: fmt =>
    let t := takeBytes n (input.takeWhile (· != '|'))
    if t.isEmpty then [] else .s t :: sscanf (input.drop t.length) fmt
  | input, .lit c :: fmt => if input.head? = some c then sscanf input.tail fmt else []
  | input, .int :: fmt =>
    let (v, n) := strtoll input
    if n = 0 then [] else .i v :: sscanf (input.drop n) fmt

/-! ### Base64 -/

/-- Value of a base64 character. -/
def b64Sextet (c : Char) : Option Nat :=
  if 'A' ≤ c && c ≤ 'Z' then some (c.toNat - 'A'.toNat)
  else if 'a' ≤ c && c ≤ 'z' then some (c.toNat - 'a'.toNat + 26)
  else if c.isDigit then some (c.toNat - '0'.toNat + 52)
  else if c = '+' then some 62
  else if c = '/' then some 63
  else none

/-- The bytes of a base64 text that ends in two padding characters. The unused bits of the last
group are zero in the one text that encodes the bytes; `trailing` allows any. -/
def b64Decode (trailing : Bool) : Str → Option (List Nat)
  | [a, b, '=', '='] => do
    let x ← b64Sextet a
    let y ← b64Sextet b
    if trailing || y % 16 = 0 then some [x * 4 + y / 16] else none
  | a :: b :: c :: d :: rest => do
    let x ← b64Sextet a
    let y ← b64Sextet b
    let z ← b64Sextet c
    let w ← b64Sextet d
    let bytes ← b64Decode trailing rest
    some ([x * 4 + y / 16, y % 16 * 16 + z / 4, z % 4 * 64 + w] ++ bytes)
  | _ => none

end IrcHub.Hub
