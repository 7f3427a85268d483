import IrcHub.Hub.Cstr

/-!
# `IrcHub.Hub.Reply`: the answers of the hub to its consoles

The answers of the hub to its consoles, from `reply.rs`. An answer is records, one a line, built
one after the other: a record is committed when the next one starts or the text is taken. Past
`consoleReplyMax` records are counted instead, and the count goes out in a record `more`.
`sendResponse` cuts the text once more before it is queued.

- `Reply`: a reply under construction: the committed records, the record being built, and how many
  were dropped
- `commit`: move the finished record into the reply, or count it. Once one was dropped all later
  ones are, so what is there is a beginning
- `escapeValue`, `kv`: `key=value` on the current record, with `%`, `|` and the line ends escaped
- `ReplyCall`, `replyText`: the calls a reply is built by, and its text
- `sendResponse`: what a console is sent of it

There are two limits, the one of the builder and the one of the queue, and they are kept apart
here as they are in the source.

Left out: whether the console's link takes the text, which closes the connection if not, and the
answers to connections that are no consoles, which get none.
-/

set_option autoImplicit false

namespace IrcHub.Hub

open Str
open String (utf8Len)

/-- A reply never grows past this. -/
def consoleReplyMax : Nat := 256 * 1024

/-- Room kept for the record `more`. -/
def replyMoreReserve : Nat := 32

/-- The largest text of an answer, in bytes. -/
def maxAdminResponse : Nat := 65536

/-- A reply under construction: the committed records, the record being built, and how many did
not fit. -/
structure Reply where
  p : Str := []
  line : Str := []
  inLine : Bool := false
  dropped : Nat := 0
  deriving Repr, DecidableEq

namespace Reply

/-- Move the finished record into the reply, or count it as dropped. -/
def commit (r : Reply) : Reply :=
  if !r.inLine then r
  else
    let need := utf8Len r.p + (if r.p.isEmpty then 0 else 1) + utf8Len r.line
    if r.dropped > 0 || need > consoleReplyMax - replyMoreReserve then
      { r with inLine := false, dropped := r.dropped + 1, line := [] }
    else
      { r with inLine := false, p := (if r.p.isEmpty then r.p else r.p ++ ['\n']) ++ r.line,
               line := [] }

def start (r : Reply) (ty : Str) : Reply := { r.commit with inLine := true, line := ty }

/-- `%` `|` and the line ends escaped, up to a NUL. -/
def escapeValue : Str → Str
  | [] => []
  | c :: cs =>
    if c = '%' then "%25".toList ++ escapeValue cs
    else if c = '|' then "%7C".toList ++ escapeValue cs
    else if c = '\n' then "%0A".toList ++ escapeValue cs
    else if c = '\r' then "%0D".toList ++ escapeValue cs
    else if c = '\x00' then []
    else c :: escapeValue cs

/-- key=value on the current record. -/
def kv (r : Reply) (key val : Str) : Reply :=
  if !r.inLine then r else { r with line := r.line ++ '|' :: key ++ '=' :: escapeValue val }

def kvOpt (r : Reply) (key : Str) : Option Str → Reply
  | none => r
  | some v => r.kv key v

def kvi (r : Reply) (key : Str) (v : Int) : Reply := r.kv key (ofInt v)

def kvu (r : Reply) (key : Str) (v : Nat) : Reply := r.kv key (Nat.toDigits 10 v)

def kvb (r : Reply) (key : Str) (v : Bool) : Reply := r.kv key (if v then ['1'] else ['0'])

/-- The result line, which is the first record. -/
def ok (r : Reply) (code : Str) : Reply :=
  let r := r.start "ok|".toList
  { r with line := r.line ++ code }

def err (r : Reply) (code : Str) (msg hint : Option Str) : Reply :=
  let r := r.start "err|".toList
  ({ r with line := r.line ++ code }.kvOpt "msg".toList msg).kvOpt "hint".toList hint

/-- Start a data record. -/
def record (r : Reply) (ty : Str) : Reply := r.start ty

/-- The finished text, with a record `more` where records did not fit. -/
def text (r : Reply) : Str :=
  let r := r.commit
  if r.dropped > 0 then
    r.p ++ ((if r.p.isEmpty then [] else ['\n']) ++ "more|n=".toList ++ Nat.toDigits 10 r.dropped)
  else r.p

end Reply

/-- The calls a reply is built by. -/
inductive ReplyCall
  | ok (code : Str)
  | err (code : Str) (msg hint : Option Str)
  | record (ty : Str)
  | kv (key val : Str)
  | kvOpt (key : Str) (val : Option Str)
  | kvi (key : Str) (v : Int)
  | kvu (key : Str) (v : Nat)
  | kvb (key : Str) (v : Bool)
  deriving Repr, DecidableEq

def Reply.call (r : Reply) : ReplyCall → Reply
  | .ok code => r.ok code
  | .err code msg hint => r.err code msg hint
  | .record ty => r.record ty
  | .kv key val => r.kv key val
  | .kvOpt key val => r.kvOpt key val
  | .kvi key v => r.kvi key v
  | .kvu key v => r.kvu key v
  | .kvb key v => r.kvb key v

/-- The text of a reply built by these calls. -/
def replyText (calls : List ReplyCall) : Str := (calls.foldl Reply.call {}).text

/-- What a console is sent of an answer. -/
def sendResponse (msg : Str) : Str := trunc msg (maxAdminResponse + 1)

example : replyText [.ok "x.y".toList, .kv ['a'] "1|2%\n\r=".toList, .record ['t'],
    .kvi ['n'] (-3)] = "ok|x.y|a=1%7C2%25%0A%0D=\nt|n=-3".toList := by decide

end IrcHub.Hub
