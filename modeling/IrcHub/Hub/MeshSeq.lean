import IrcHub.Hub.Cstr

/-!
# `IrcHub.Hub.MeshSeq`: the sequence counter of the mesh

The sequence counter of the mesh (`state.rs`, `config.rs`, `main.rs`). Frames a hub originates
carry a number of its own counter. The numbers are to rise, over restarts too, so the counter is
saved with the config, and a start takes the greater of the saved one and a floor.

* `nextLamportSeq`: bump, then return
* `timeFloor`: a floor that follows the clock, 1024 numbers a second
* `lamportLine`, `loadLamportLine`: the counter as a line of the config, written and read
* `bootLamport`: the counter of a hub that starts: the saved one or the floor, whichever is
  greater
* `SeqState`, `seqStep`: the counter and the counter on disk, with the numbers handed out so far

It is a 64-bit unsigned integer: the bump wraps, and so does the floor of a far clock. The reader
of the line and its writer do not take the same numbers, and the floor covers what the reader
refuses as long as the clock is right.

Of the config file the model has the counter's own line. The start reads the clock twice, once
while the file is loaded and once after it.
-/

set_option autoImplicit false

namespace IrcHub.Hub

open Str

/-- Numbers of 64 bits. -/
abbrev u64Size : Nat := 18446744073709551616

/-- White space at the ends of a text, as Unicode has it. -/
def isSpace (c : Char) : Bool :=
  (decide (0x09 ≤ c.toNat) && decide (c.toNat ≤ 0x0d)) || c.toNat == 0x20 || c.toNat == 0x85
    || c.toNat == 0xa0 || c.toNat == 0x1680
      || (decide (0x2000 ≤ c.toNat) && decide (c.toNat ≤ 0x200a))
    || c.toNat == 0x2028 || c.toNat == 0x2029 || c.toNat == 0x202f || c.toNat == 0x205f
    || c.toNat == 0x3000

/-- The text without the white space at its ends. -/
def trim (s : Str) : Str := ((s.dropWhile isSpace).reverse.dropWhile isSpace).reverse

/-- Bump, then return: the first number is 1. -/
def nextLamportSeq (seq : Nat) : Nat := (seq + 1) % u64Size

/-- The floor under the counter: 1024 numbers a second. -/
def timeFloor (now : Int) : Nat := (now % u64Size).toNat * 1024 % u64Size

/-- The counter's line of the config file, without the line end. -/
def lamportLine (seq : Nat) : Str := "lamport_seq|".toList ++ Nat.toDigits 10 seq

/-- The counter after a line of the config file. -/
def loadLamportLine (now : Int) (seq : Nat) (line : Str) : Nat :=
  match splitOnce '|' line with
  | none => seq
  | some (k, v) =>
    if k = "lamport_seq".toList then
      max ((parseUint (trim v) (u64Size - 1)).getD 0).toNat (timeFloor now)
    else seq

/-- The counter of a hub that starts: the line if the file has one, then the floor once more. -/
def bootLamport (loadNow bootNow : Int) (line : Option Str) : Nat :=
  let seq := match line with
    | some line => loadLamportLine loadNow 0 line
    | none => 0
  if seq < timeFloor bootNow then timeFloor bootNow else seq

/-! ### Runs -/

/-- What happens to the counter. -/
inductive SeqEvent
  /-- A number is handed out. -/
  | next
  /-- The config is saved. -/
  | save
  /-- The process starts again. -/
  | restart (loadNow bootNow : Int)
  deriving Repr, DecidableEq

/-- The counter and the counter on disk, with the numbers handed out and whether one was since the
last save. -/
structure SeqState where
  seq : Nat
  saved : Option Nat := none
  issued : List Nat := []
  unsaved : Bool := false
  deriving Repr, DecidableEq

/-- One event. -/
def seqStep (st : SeqState) : SeqEvent → SeqState
  | .next =>
    { st with
      seq := nextLamportSeq st.seq
      issued := st.issued ++ [nextLamportSeq st.seq]
      unsaved := true }
  | .save => { st with saved := some st.seq, unsaved := false }
  | .restart loadNow bootNow =>
      { st with seq := bootLamport loadNow bootNow (st.saved.map lamportLine) }

end IrcHub.Hub
