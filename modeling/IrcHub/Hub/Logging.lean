import IrcHub.Lib.Str
import IrcHub.Lib.Utf8
import IrcHub.Ui.Text

/-!
# `IrcHub.Hub.Logging`: what reaches the log

What reaches the log, from `logging.rs`. A message may hold bytes a peer sent before it logged in,
so anything may be in it. `sanitize` writes it so that it stays one entry of the log:

* a newline that is not the last byte is followed by four spaces
* a printable byte and a tab stay, and so does a whole UTF-8 sequence of more than one byte
* any other byte is written as an escape of its two hexadecimal digits

`utf8Len` finds the sequences: the length of the one at the start, 0 where there is none. It is
written out byte by byte, with the ranges of the bytes, the shortest forms and the surrogates.
`sanitize` then decodes what it found, and its fallback is for a sequence the decoder does not
take. That the two agree, so that the fallback is never used, is a theorem about this model.

Left out: where the log goes, and the time in front of an entry.
-/

set_option autoImplicit false

namespace IrcHub.Hub.Logging

open Terminal (Bytes)
open Console (leadByte isCont moreBits)

/-- Length of the UTF-8 sequence of more than one byte at the start, 0 when the bytes there are
not one. -/
def utf8Len : Bytes → Nat
  | [] => 0
  | b0 :: rest =>
    match leadByte b0 with
    | none => 0
    | some (len, least, bits) =>
      let tail := rest.take (len - 1)
      let cp := tail.foldl moreBits bits
      if rest.length + 1 < len || tail.any (!isCont ·) then 0
      else if cp < least || 0x10FFFF < cp || (0xD800 ≤ cp && cp ≤ 0xDFFF) then 0
      else len

/-- A hexadecimal digit, in upper case. -/
def hexDigit (n : Nat) : Char := Char.ofNat (if n < 10 then 48 + n else 55 + n)

/-- `\xNN`. -/
def escape (c : UInt8) : Str := '\\' :: 'x' :: [hexDigit (c.toNat / 16), hexDigit (c.toNat % 16)]

/-- The text the log gets for a message. -/
def sanitize : Bytes → Str
  | [] => []
  | c :: rest =>
    if c = 0x0A then '\n' :: (if rest = [] then [] else "    ".toList) ++ sanitize rest
    else if c = 0x09 ∨ (0x20 ≤ c ∧ c < 0x7F) then Char.ofNat c.toNat :: sanitize rest
    else if 0x80 ≤ c then
      let ul := utf8Len (c :: rest)
      if 0 < ul then
        -- the fallback is for a sequence the decoder does not take
        (Utf8.decode ((c :: rest).take ul)).getD ['?'] ++ sanitize ((c :: rest).drop ul)
      else escape c ++ sanitize rest
    else escape c ++ sanitize rest
termination_by s => s.length
decreasing_by
  all_goals simp only [List.length_cons, List.length_drop]
  all_goals omega

end IrcHub.Hub.Logging
