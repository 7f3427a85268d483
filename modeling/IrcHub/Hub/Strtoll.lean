import IrcHub.Hub.Checked
import IrcHub.Hub.Cstr
import IrcHub.Lib.Terminal

/-!
# `IrcHub.Hub.Strtoll`: the two readers of a decimal number, byte by byte

The two readers of a decimal number, byte by byte. `cstr::strtoll` and `console::fmt::strtoll`
read the same texts with different arithmetic: the first in 64 bits with an overflow flag, the
second in 128 bits with a cut-off and a clamp. Both are here as they stand, with the arithmetic
that could stop the program checked.

* `Cstr.strtoll`, `Fmt.strtoll`: the two readers, each in a namespace of its own
* `Numeral`: a number at the start of a text: white space, a sign or none, and all the digits
* `CStrtoll`: what `strtoll` of C gives in base 10: the nearest 64-bit number to the one the
  digits stand for, and the bytes it took

`CStrtoll` is a statement and not a program: it says what a reader is to give, for a text with a
number at its start and for one without.

`strtoll` of `IrcHub.Hub.Cstr` is the first reader on the characters of a text, and the other
models use that one.
-/

set_option autoImplicit false

namespace IrcHub.Hub

open Terminal (Bytes)

def isDigitByte (b : UInt8) : Bool := 0x30 ≤ b && b ≤ 0x39

/-- `b - b'0'`, in bytes. -/
def digitOf (b : UInt8) : Except Fault Int := if 0x30 ≤ b then .ok (b.toNat - 0x30)
    else .error .overflow

namespace Cstr

def isCSpaceByte (b : UInt8) : Bool :=
  b == 0x20 || b == 0x09 || b == 0x0A || b == 0x0B || b == 0x0C || b == 0x0D

/-- One more digit of a value, and whether the value has left the 64 bits. -/
def digitStep (neg : Bool) (st : Int × Bool) (b : UInt8) : Except Fault (Int × Bool) := do
  let d ← digitOf b
  if st.2 then .ok st
  else
    match (checkI64 (st.1 * 10)).bind fun x => checkI64 (if neg then x - d else x + d) with
    | some x => .ok (x, false)
    | none => .ok (st.1, true)

/-- Value of the number at the start and the bytes it takes, as the hub reads it. -/
def strtoll (s : Bytes) : Except Fault (Int × Nat) := do
  let space := s.takeWhile isCSpaceByte
  let t := s.dropWhile isCSpaceByte
  let neg := t.head? == some 0x2D
  let signLen := if neg || t.head? == some 0x2B then 1 else 0
  let digits := (t.drop signLen).takeWhile isDigitByte
  let (v, overflow) ← digits.foldlM (digitStep neg) (0, false)
  if digits.isEmpty then .ok (0, 0)
  else .ok (if overflow then (if neg then i64Min else i64Max) else v,
    space.length + signLen + digits.length)

end Cstr

namespace Fmt

abbrev i128Min : Int := -170141183460469231731687303715884105728

abbrev i128Max : Int := 170141183460469231731687303715884105727

/-- A result of 128-bit arithmetic. -/
def checkI128 (x : Int) : Except Fault Int := if i128Min ≤ x ∧ x ≤ i128Max then .ok x
    else .error .overflow

def isSpace (b : UInt8) : Bool := b == 0x20 || (9 ≤ b && b ≤ 13)

/-- One more digit, unless the value is past the cut-off. -/
def digitStep (v : Int) (b : UInt8) : Except Fault Int :=
  if v < i64Max + 2 then do
    let x ← checkI128 (v * 10)
    let d ← digitOf b
    checkI128 (x + d)
  else .ok v

def applySign (neg : Bool) (v : Int) : Except Fault Int := if neg then checkI128 (-v) else .ok v

/-- Value of the number at the start and the bytes it takes, as the console reads it. -/
def strtoll (s : Bytes) : Except Fault (Int × Nat) := do
  let space := s.takeWhile isSpace
  let t := s.dropWhile isSpace
  let neg := t.head? == some 0x2D
  let signLen := if t.head? == some 0x2D || t.head? == some 0x2B then 1 else 0
  let digits := (t.drop signLen).takeWhile isDigitByte
  let v ← digits.foldlM digitStep 0
  if digits.isEmpty then .ok (0, 0)
  else do
    let v ← applySign neg v
    .ok (max i64Min (min i64Max v), space.length + signLen + digits.length)

end Fmt

/-! ### What C says -/

/-- White space of the C locale, as a byte. -/
def CSpace (b : UInt8) : Prop := b = 0x20 ∨ (9 ≤ b.toNat ∧ b.toNat ≤ 13)

def CDigit (b : UInt8) : Prop := 0x30 ≤ b.toNat ∧ b.toNat ≤ 0x39

/-- A number at the start of a text: white space, a sign or none, and all the digits there are, at
least one. -/
structure Numeral (s : Bytes) where
  space : Bytes
  sign : Bytes
  digits : Bytes
  rest : Bytes
  text : s = space ++ sign ++ digits ++ rest
  space_only : ∀ b ∈ space, CSpace b
  sign_one : sign = [] ∨ sign = [0x2B] ∨ sign = [0x2D]
  digits_only : ∀ b ∈ digits, CDigit b
  some_digit : digits ≠ []
  longest : ∀ b ∈ rest.head?, ¬CDigit b

/-- What digits stand for. -/
def decimal (digits : Bytes) : Nat := digits.foldl (fun v b => v * 10 + (b.toNat - 0x30)) 0

namespace Numeral

variable {s : Bytes}

/-- The number itself, of any size. -/
def value (p : Numeral s) : Int := if p.sign = [0x2D] then -(decimal p.digits : Int)
    else decimal p.digits

def length (p : Numeral s) : Nat := p.space.length + p.sign.length + p.digits.length

end Numeral

/-- The nearest 64-bit number. -/
def saturate (x : Int) : Int := max i64Min (min i64Max x)

/-- What `strtoll` of C gives in base 10: the nearest 64-bit number to the one at the start and
its length, or nothing where no number is. -/
structure CStrtoll (s : Bytes) (v : Int) (n : Nat) : Prop where
  number : ∀ p : Numeral s, v = saturate p.value ∧ n = p.length
  none : IsEmpty (Numeral s) → v = 0 ∧ n = 0

end IrcHub.Hub
