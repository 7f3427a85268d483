import IrcHub.Ui.Text
import Mathlib.Data.List.DropRight

/-!
# `IrcHub.Ui.Reply`: the records of the hub's answers

The records of the hub's answers. An answer is a result line (`ok|code|k=v...` or
`err|code|k=v...`) and data records, one a line. What a record holds is un-escaped first and
sanitized after (`unescapeClean`), so an escape cannot bring in what the sanitizer would drop.

- `Crec`, `Creply`: one record and a parsed answer. An answer that begins with neither is text
- `Crec.rv`, `Crec.rvi`, `Crec.rvs`: the value of a key: as it is, as a number, and when not empty
- `unescape`: `%25`, `%7C`, `%0A` and `%0D` back to their bytes. No other escape is read
- `parseRec`, `parseResult`: a record, and the result line, whose code is its first field
- `textLines`: the lines of a text without the line ends at its end

The hub's side of the format is `IrcHub.Hub.Reply`.
-/

set_option autoImplicit false

namespace IrcHub.Console

open Terminal (Bytes)

/-- One record: its type, its fields, and the whole record. -/
structure Crec where
  typ : Bytes := []
  fields : List (Bytes × Bytes) := []
  line : Bytes := []
  deriving Repr, DecidableEq

/-- A parsed answer. Neither `ok` nor `err`: text. -/
structure Creply where
  ok : Bool := false
  err : Bool := false
  code : Bytes := []
  res : Crec := {}
  r : List Crec := []
  deriving Repr, DecidableEq

/-! ### Reading a record -/

/-- The value of a key. -/
def Crec.rv (c : Crec) (key : Bytes) : Option Bytes := (c.fields.find? (·.1 == key)).map (·.2)

/-- The value as a number, `dflt` unless the whole value is one. -/
def Crec.rvi (c : Crec) (key : Bytes) (dflt : Int) : Int :=
  match c.rv key with
  | none => dflt
  | some v =>
    let (x, stop) := Hub.strtoll (chars v)
    if !v.isEmpty && stop = v.length then x else dflt

def Crec.rvb (c : Crec) (key : Bytes) : Bool := c.rvi key 0 != 0

/-- A value that is there and not empty. -/
def Crec.rvs (c : Crec) (key : Bytes) : Option Bytes := (c.rv key).filter (!·.isEmpty)

/-! ### Parsing -/

/-- The byte an escape of two letters stands for. -/
def unescaped (x y : UInt8) : Option UInt8 :=
  if x = 0x32 ∧ y = 0x35 then some 0x25
  else if x = 0x37 ∧ (y = 0x43 ∨ y = 0x63) then some 0x7C
  else if x = 0x30 ∧ (y = 0x41 ∨ y = 0x61) then some 0x0A
  else if x = 0x30 ∧ (y = 0x44 ∨ y = 0x64) then some 0x0D
  else none

/-- %25 %7C %0A %0D back to their bytes. -/
def unescape : Bytes → Bytes
  | [] => []
  | c :: rest =>
    match c, rest with
    | 0x25, x :: y :: rest' =>
      match unescaped x y with
      | some z => z :: unescape rest'
      | none => 0x25 :: unescape (x :: y :: rest')
    | c, rest => c :: unescape rest

/-- Un-escaped, then sanitized. -/
def unescapeClean (s : Bytes) : Bytes := sanitize (unescape s) ((unescape s).length + 1)

def cleanDup (s : Bytes) : Bytes := sanitize s (s.length + 1)

/-- A field of a record, as key and value. -/
def parseField (f : Bytes) : Bytes × Bytes :=
  if f.contains 0x3D then
    (cleanDup (f.takeWhile (· != 0x3D)), unescapeClean ((f.dropWhile (· != 0x3D)).drop 1))
  else (cleanDup f, [])

/-- One `type|k=v|k=v` line; without `kv` the fields are positional. -/
def parseRec (s : Bytes) (kv : Bool) : Crec :=
  let parts := s.splitOn 0x7C
  { typ := cleanDup (parts.headD [])
    fields := if kv then parts.tail.map parseField
      else parts.tail.zipIdx.map fun f => (num f.2, cleanDup f.1)
    line := cleanDup s }

def isEol (x : UInt8) : Bool := x == 0x0A || x == 0x0D

/-- The lines of a text without the line ends at its end, each without one carriage return at its
end. -/
def textLines (text : Bytes) : List Bytes :=
  let text := text.rdropWhile isEol
  if text.isEmpty then []
  else (text.splitOn 0x0A).map fun l => if l.getLast? = some 0x0D then l.dropLast else l

/-- The result line: the code is its first field, a key without a value. -/
def parseResult (line : Bytes) : Creply :=
  let res := parseRec line true
  let ok := res.typ.head? = some 0x6F
  match res.fields with
  | (k, []) :: fields =>
      { ok := ok, err := !ok, code := k, res := { res with fields := ([], []) :: fields } }
  | _ => { ok := ok, err := !ok, res := res }

def creplyParse (text : Bytes) : Creply :=
  match textLines text with
  | [] => {}
  | first :: rest =>
    if (b "ok|").isPrefixOf first || (b "err|").isPrefixOf first then
      let out := parseResult first
      { out with r := rest.map fun l => parseRec l (out.code != b "network.tree") }
    else { r := (first :: rest).map fun l => parseRec l true }

example : (creplyParse (b "err|user.not_found|msg=no%0A such%1b user")).res.rv (b "msg")
    = some (b "no such%1b user") := by decide +kernel

end IrcHub.Console
