import IrcHub.Hub.Cstr
import IrcHub.Lib.Terminal

/-!
# `IrcHub.Ui.Text`: the console's byte strings

The console's byte strings. Text in the console is bytes. What comes from elsewhere passes
`sanitize` before it is shown, and texts are cut where the C console's buffers cut them: at a
character (`cCut`, `uprec`, `cutField`).

- `utf8Len`, `utf8Cp`: the valid UTF-8 sequence at the start, and its code point
- `sanitize`: control bytes dropped, a tab made a blank, invalid UTF-8 replaced, up to a size.
  What would be a control when decoded is dropped as well
- `utf8Cut`, `charNeed`: where a cut must end so that no character is split
- `cutField`: a field copied into a buffer
- `strtoull`: the unsigned 64-bit reader, saturating
- `cpWidth`, `nextChar`: cells on the screen, by the width table of the source

The sanitizer, the cuts and the widths each step over the bytes by themselves, with their own idea
of where a character ends. On a text that was sanitized they agree.
-/

set_option autoImplicit false

namespace IrcHub.Console

open Terminal (Bytes)

/-- The bytes of a text of the source. -/
def b (s : String) : Bytes := Terminal.encode s.toList

/-- The bytes of a number. -/
def num (n : Nat) : Bytes := Terminal.encode (Nat.toDigits 10 n)

def numInt (n : Int) : Bytes := Terminal.encode (Str.ofInt n)

/-! ### UTF-8 -/

/-- The length a lead byte stands for, the least code point of that length, and the byte's own
bits. -/
def leadByte (b0 : UInt8) : Option (Nat × Nat × Nat) :=
  if 0xC2 ≤ b0 ∧ b0 ≤ 0xDF then some (2, 0x80, b0.toNat % 0x20)
  else if 0xE0 ≤ b0 ∧ b0 ≤ 0xEF then some (3, 0x800, b0.toNat % 0x10)
  else if 0xF0 ≤ b0 ∧ b0 ≤ 0xF4 then some (4, 0x10000, b0.toNat % 0x08)
  else none

/-- A continuation byte: `b & 0xC0 == 0x80`. -/
def isCont (x : UInt8) : Bool := x.toNat / 0x40 == 2

/-- Six more bits: `(cp << 6) | (b & 0x3F)`. -/
def moreBits (cp : Nat) (x : UInt8) : Nat := cp * 0x40 + x.toNat % 0x40

/-- Length of the valid UTF-8 sequence at the start, 0 if none. -/
def utf8Len : Bytes → Nat
  | [] => 0
  | b0 :: rest =>
    if b0 < 0x80 then 1
    else
      match leadByte b0 with
      | none => 0
      | some (len, least, bits) =>
        let tail := rest.take (len - 1)
        let cp := tail.foldl moreBits bits
        if rest.length + 1 < len || tail.any (!isCont ·) then 0
        else if cp < least || 0x10FFFF < cp || (0xD800 ≤ cp && cp ≤ 0xDFFF) then 0
        else len

/-- The code point of the sequence of `len` bytes at the start. -/
def utf8Cp : Bytes → Nat → Nat
  | [], _ => 0
  | b0 :: rest, len =>
    if len = 1 then b0.toNat
    else (rest.take (len - 1)).foldl moreBits
      (b0.toNat % (if len = 2 then 0x20 else if len = 3 then 0x10 else 0x08))

/-- `sanitize` from a point of the input on, `used` bytes being out already. -/
def sanitizeFrom (cap : Nat) : Nat → Nat → Bytes → Bytes
  | 0, _, _ => []
  | _ + 1, _, [] => []
  | n + 1, used, c :: rest =>
    if cap ≤ used + 1 then []
    else if c = 0x09 then 0x20 :: sanitizeFrom cap n (used + 1) rest
    else if c < 0x20 ∨ c = 0x7f then sanitizeFrom cap n used rest
    else if c < 0x80 then c :: sanitizeFrom cap n (used + 1) rest
    else
      let ul := utf8Len (c :: rest)
      if ul = 0 then 0x3f :: sanitizeFrom cap n (used + 1) rest
      else
        let cp := utf8Cp (c :: rest) ul
        if 0x80 ≤ cp ∧ cp ≤ 0x9F then sanitizeFrom cap n used ((c :: rest).drop ul)
        else if cap ≤ used + ul then []
        else (c :: rest).take ul ++ sanitizeFrom cap n (used + ul) ((c :: rest).drop ul)

/-- Control bytes dropped (a tab becomes a blank), invalid UTF-8 replaced, C1 controls dropped; at
most `cap - 1` bytes, never a split character. -/
def sanitize (input : Bytes) (cap : Nat) : Bytes := sanitizeFrom cap input.length 0 input

/-! ### Cuts -/

/-- Steps back over at most `back` continuation bytes from index `i`. -/
def backOver (s : Bytes) : Nat → Nat → Nat
  | 0, i => i
  | back + 1, i => if 0 < i && (s[i]?.any isCont) then backOver s back (i - 1) else i

/-- How many bytes the character of a lead byte takes. -/
def charNeed (x : UInt8) : Nat :=
  if 0xF0 ≤ x ∧ x ≤ 0xF7 then 4 else if 0xE0 ≤ x ∧ x ≤ 0xEF then 3 else if 0xC0 ≤ x
    ∧ x ≤ 0xDF then 2 else 1

/-- Where a cut of the first `len` bytes must end so that no character is split. -/
def utf8Cut (s : Bytes) (len : Nat) : Nat :=
  if len = 0 then 0
  else
    let i := backOver s 3 (len - 1)
    if len < i + charNeed (s.getD i 0) then i else len

/-- What a buffer of `cap` bytes keeps, without a split character. -/
def cCut (s : Bytes) (cap : Nat) : Bytes :=
  let n := min s.length (cap - 1)
  if n < s.length then s.take (utf8Cut s n) else s

/-- The length of at most `max` bytes of a text, without a split character. -/
def uprec (s : Bytes) (max : Nat) : Nat :=
  if max < s.length then utf8Cut s max else s.length

/-- `cutField` from a point on, `o` bytes being taken already. -/
def cutFieldFrom (max : Nat) : Nat → Nat → Bytes → Nat
  | 0, o, _ => o
  | _ + 1, o, [] => o
  | n + 1, o, s =>
    let ul := Nat.max (utf8Len s) 1
    if max < o + ul then o else cutFieldFrom max n (o + ul) (s.drop ul)

/-- A field copied into a buffer of `cap` bytes, without a split character. -/
def cutField (s : Bytes) (cap : Nat) : Bytes := s.take (cutFieldFrom (cap - 1) s.length 0 s)

/-- Blanks up to `n` bytes. -/
def padBytes (s : Bytes) (n : Nat) : Bytes := s ++ List.replicate (n - s.length) 0x20

/-! ### Comparisons and numbers -/

def lowerByte (x : UInt8) : UInt8 := if 0x41 ≤ x ∧ x ≤ 0x5A then x + 0x20 else x

def lowerBytes (s : Bytes) : Bytes := s.map lowerByte

def eqIc (s : Bytes) (t : Bytes) : Bool := lowerBytes s == lowerBytes t

def isDigitByte (x : UInt8) : Bool := 0x30 ≤ x && x ≤ 0x39

def isAlnumByte (x : UInt8) : Bool :=
  isDigitByte x || (0x41 ≤ x && x ≤ 0x5A) || (0x61 ≤ x && x ≤ 0x7A)

/-- One to ten digits. -/
def allDigits (s : Bytes) : Bool := !s.isEmpty && s.length ≤ 10 && s.all isDigitByte

/-- Bytes as the characters of the same numbers: the number readers look at ASCII ones only. -/
def chars (s : Bytes) : Str := s.map fun x => Char.ofNat x.toNat

def atoll (s : Bytes) : Int := Hub.atoll (chars s)

def atoi (s : Bytes) : Int := Hub.atoi (chars s)

/-- The decimal number at the start as an unsigned 64-bit one: saturating, a minus sign wraps
it. -/
def strtoull (s : Bytes) : Nat :=
  let t := s.dropWhile fun x => x == 0x20 || (9 ≤ x && x ≤ 13)
  let neg := t.head? == some 0x2D
  let t := if neg || t.head? == some 0x2B then t.tail else t
  let v := (t.takeWhile isDigitByte).foldl (fun v x => v * 10 + (x.toNat - 0x30)) 0
  if 2 ^ 64 ≤ v then 2 ^ 64 - 1 else if neg then (2 ^ 64 - v) % 2 ^ 64 else v

/-- Cells a code point takes on the screen. -/
def cpWidth (cp : Nat) : Nat :=
  if (0x0300 ≤ cp && cp ≤ 0x036F) || cp == 0x200B || cp == 0x200C || cp == 0x200D
    || cp == 0xFE0F then 0
  else if (0x1100 ≤ cp && cp ≤ 0x115F) || (0x2E80 ≤ cp && cp ≤ 0xA4CF)
    || (0xAC00 ≤ cp && cp ≤ 0xD7A3) || (0xF900 ≤ cp && cp ≤ 0xFAFF)
    || (0xFE30 ≤ cp && cp ≤ 0xFE4F) || (0xFF00 ≤ cp && cp ≤ 0xFF60)
    || (0xFFE0 ≤ cp && cp ≤ 0xFFE6) || (0x1F300 ≤ cp && cp ≤ 0x1F64F)
    || (0x1F900 ≤ cp && cp ≤ 0x1F9FF) || (0x20000 ≤ cp && cp ≤ 0x3FFFD) then 2
  else 1

/-- Bytes and cells of the next character. -/
def nextChar (s : Bytes) : Nat × Nat :=
  let ul := Nat.max (utf8Len s) 1
  (ul, cpWidth (utf8Cp s ul))

def strWidthFrom : Nat → Bytes → Nat
  | 0, _ => 0
  | _ + 1, [] => 0
  | n + 1, s => (nextChar s).2 + strWidthFrom n (s.drop (nextChar s).1)

def strWidth (s : Bytes) : Nat := strWidthFrom s.length s

example : sanitize (b "a\tb\x1b[31mc\x07") 64 = b "a b[31mc" := by decide +kernel

example : sanitize (0xff :: b "é") 64 = b "?é" := by decide +kernel

example : sanitize (b "abé") 4 = b "ab" := by decide +kernel

end IrcHub.Console
