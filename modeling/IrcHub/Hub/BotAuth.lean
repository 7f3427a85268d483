import IrcHub.Hub.Bots
import IrcHub.Hub.Link

/-!
# `IrcHub.Hub.BotAuth`: how a bot proves who it is

The handshake of `auth.rs`. A bot sends its uuid, the hub answers with a signed challenge, the bot
signs the challenge, the hub acknowledges. A revoked bot goes through the same frames, and is told
to wipe itself in place of the acknowledgement.

* `authUuid`: the first frame. It decides whether the connection is one of a revoked bot
* `authSignature`, `authGrant`: the second frame. It goes by what the first one decided
* `handleBotAuthentication`: one frame of one connection, whichever comes next
* `AuthRun`, `authRun`: a hub and one of its connections, with changes of the store in between

The two frames are handled at different times, and the store may change between them: a bot can be
deleted after its uuid was taken and before its signature is. `AuthEvent` has such changes as
events of their own, so a run may put them anywhere.

Signatures, key agreement and the cipher are the parameter `BotCrypto`, of which nothing is
assumed. What the environment decides while a frame is handled (the random bytes, whether the
socket took the answer, the time) is `AuthIo`. Frames are bytes, and the uuid in one is read the
lenient way the source reads it (`fromUtf8Lossy`).

Left out: the address a failed try is counted against, the older sessions of the bot, and what the
tree is told.
-/

set_option autoImplicit false

namespace IrcHub.Hub

open Str
open String (utf8Len)

abbrev ed25519SigLen : Nat := 64
abbrev cmdBotRetire : Nat := 0x7F
abbrev cmdBotRetireAck : Nat := 0x80

/-! ### Texts and bytes -/

/-- The bytes of a text. -/
def strBytes (s : Str) : List Nat := s.flatMap fun c => (String.utf8EncodeChar c).map UInt8.toNat

/-- What has been read of a character: bytes to come, the range of the next, the bits so far. -/
structure Utf8Partial where
  left : Nat
  lo : Nat
  hi : Nat
  bits : Nat
  deriving Repr, DecidableEq

/-- What the first byte of a character of more than one byte says. -/
def utf8Lead (b : Nat) : Option Utf8Partial :=
  if 0xC2 ≤ b && b ≤ 0xDF then some ⟨1, 0x80, 0xBF, b % 32⟩
  else if 0xE0 ≤ b && b ≤ 0xEF then
    some ⟨2, if b = 0xE0 then 0xA0 else 0x80, if b = 0xED then 0x9F else 0xBF, b % 16⟩
  else if 0xF0 ≤ b && b ≤ 0xF4 then
    some ⟨3, if b = 0xF0 then 0x90 else 0x80, if b = 0xF4 then 0x8F else 0xBF, b % 8⟩
  else none

/-- What stands for bytes that are no character. -/
def replacementChar : Char := Char.ofNat 0xFFFD

/-- A byte where a character may begin. -/
def utf8Begin (out : Str) (b : Nat) : Str × Option Utf8Partial :=
  -- a character of one byte
  if b < 0x80 then (out ++ [Char.ofNat b], none)
  else
    match utf8Lead b with
    | some p => (out, some p)
    -- a byte that nothing begins with, one mark for each
    | none => (out ++ [replacementChar], none)

/-- One more byte. One that does not go on with the character begins the next. -/
def utf8Take (st : Str × Option Utf8Partial) (b : Nat) : Str × Option Utf8Partial :=
  match st.2 with
  | none => utf8Begin st.1 b
  | some p =>
    if p.lo ≤ b && b ≤ p.hi then
      if p.left = 1 then (st.1 ++ [Char.ofNat (p.bits * 64 + b % 64)], none)
      else (st.1, some ⟨p.left - 1, 0x80, 0xBF, p.bits * 64 + b % 64⟩)
    -- the byte is looked at again as the beginning of the next
    else utf8Begin (st.1 ++ [replacementChar]) b

/-- The text of some bytes, each broken character replaced. -/
def fromUtf8Lossy (data : List Nat) : Str :=
  match data.foldl utf8Take ([], none) with
  | (out, none) => out
  -- the text ends inside a character
  | (out, some _) => out ++ [replacementChar]

/-! ### Keys -/

/-- The bytes of a combined key. The decoder is lenient: the padding may be cut short. -/
def combinedPub (value : Str) : Option (List Nat) :=
  let digits := value.reverse.dropWhile (· == '=')
  -- at most two padding characters may be missing
  if value.length ≤ digits.length + 2 && digits.length = 86 then
    b64Decode true (digits.reverse ++ "==".toList)
  else none

/-- The key of a bot's record. -/
def BotConfig.combinedPub (b : BotConfig) : Option (List Nat) := do
  let e ← b.entry .pub
  Hub.combinedPub e.value

/-- The key of a bot. -/
def loadBotCombinedPub (s : HubState) (uuid : Str) : Option (List Nat) := do
  let b ← s.bots.find? fun b => b.uuid == uuid
  b.combinedPub

/-- The key a revoked bot must prove. -/
def loadRevokedPub (s : HubState) (uuid : Str) : Option (List Nat) := do
  let r ← s.revoked.find? fun r => r.uuid == uuid
  combinedPub r.pubKey

/-! ### One connection -/

/-- How far the handshake of a connection is. -/
inductive BotAuthState
  | idle | uuidReceived | challengeSent | signatureReceived | complete | quarantine
  deriving Repr, DecidableEq

/-- A connection, as far as the handshake goes. A fresh one counts as a bot. -/
structure BotConn where
  typ : ClientType := .bot
  authenticated : Bool := false
  botAuthState : BotAuthState := .idle
  quarantine : Bool := false
  id : Str := []
  challenge : List Nat := []
  ephPriv : List Nat := []
  ephPub : List Nat := []
  ephPrivSet : Bool := false
  sessionKey : List Nat := []
  lastSeen : Int := 0
  deriving Repr, DecidableEq

/-- The primitives of the handshake. -/
structure BotCrypto where
  ed25519Verify : (pubKey msg sig : List Nat) → Bool
  x25519Derive : (privKey peerPub : List Nat) → Option (List Nat)
  hkdfSha256 : (ikm salt info : List Nat) → Option (List Nat)
  /-- Whether the acknowledgement could be sealed. -/
  aesGcmEncrypt : (plain key : List Nat) → Bool
  aesGcmDecrypt : (frame key : List Nat) → Option (List Nat)

/-- What the environment decides while a frame is handled. -/
structure AuthIo where
  clk : Clock
  /-- The challenge, and both halves of the ephemeral key: none when there is no randomness. -/
  challenge : Option (List Nat)
  ephemeral : Option (List Nat × List Nat)
  /-- The socket took the answer. -/
  written : Bool

/-- What the bot signs. -/
def botTranscript (uuid : Str) (ephPub challenge : List Nat) : List Nat :=
  strBytes ("irchub-bot-challenge-v1|".toList ++ uuid ++ ['|']) ++ ephPub ++ challenge

/-- The uuid of a connection: a revoked bot or a live one, else the connection is dropped. -/
def authUuid (io : AuthIo) (s : HubState) (c : BotConn) (data : List Nat) : Option BotConn :=
  if data.length = 0 || data.length > 63 then none
  else
    let uuid := fromUtf8Lossy data
    let quarantine := isRevoked s uuid
    -- known on either list: revoked bots are let in as far as their wipe
    if quarantine || s.bots.any fun b => b.uuid == uuid && b.isActive then do
      let challenge ← io.challenge
      let (ephPriv, ephPub) ← io.ephemeral
      -- the challenge could not be written
      if io.written then
        some { c with
          quarantine := quarantine, challenge := challenge, ephPriv := ephPriv, ephPub := ephPub
          ephPrivSet := true, id := trunc uuid 64, botAuthState := .challengeSent
          lastSeen := io.clk.now }
      else none
    else none

/-- The session key the signature of a connection earns, `none` when it earns none. -/
def authSignature (cr : BotCrypto) (s : HubState) (c : BotConn) (data : List Nat) :
    Option (List Nat) :=
  -- no half of the key: a second signature on one challenge
  if data.length ≠ ed25519SigLen || !c.ephPrivSet then none
  else do
    -- by the list its uuid was on when the challenge was made
    let combined ← if c.quarantine then loadRevokedPub s c.id else loadBotCombinedPub s c.id
    if !cr.ed25519Verify (combined.take 32) (botTranscript c.id c.ephPub c.challenge) data
      then none
    else
      let shared ← cr.x25519Derive c.ephPriv (combined.drop 32)
      cr.hkdfSha256 shared c.challenge (strBytes ("irchub-bot-session-v1|".toList ++ c.id))

/-- The connection once its key is settled: a revoked bot waits for its wipe, any other is a
bot. -/
def BotConn.granted (c : BotConn) (key : List Nat) (now : Int) : BotConn :=
  let c := { c with sessionKey := key, ephPriv := [], ephPrivSet := false }
  -- not authenticated: nothing of a session is opened to it
  if c.quarantine then { c with botAuthState := .quarantine }
  else
    { c with typ := .bot, authenticated := true, botAuthState := .complete, lastSeen := now }

/-- A revoked bot that says it wiped itself. -/
def retireAck (cr : BotCrypto) (io : AuthIo) (s : HubState) (c : BotConn)
    (data : List Nat) : HubState :=
  if data.length > gcmIvLen + gcmTagLen && data.length ≤ 64 then
    match cr.aesGcmDecrypt data c.sessionKey with
    | some plain =>
      -- five bytes: the command and a length field
      if plain.length ≥ 5 && plain.head? = some cmdBotRetireAck
        then revokeMarkWiped s c.id io.clk.now
      else s
    | none => s
  else s

/-- The acknowledgement, or the order to wipe. -/
def BotConn.ackPlain (c : BotConn) : List Nat := [if c.quarantine then cmdBotRetire else 1]

/-- A signature that earned a key: the answer, and a session unless the bot is revoked. -/
def authGrant (cr : BotCrypto) (io : AuthIo) (s : HubState) (c : BotConn) (key : List Nat) :
    Option (HubState × Option BotConn) :=
  -- sealed and written before anything is granted
  if !cr.aesGcmEncrypt c.ackPlain key || !io.written then some (s, none)
  else
    let c := c.granted key io.clk.now
    if c.quarantine then some (s, some c)
    else
      -- the login goes on the record of the bot, and so to the other hubs
      (updateEntry io.clk s c.id BotKey.seen.name [] [] [] c.lastSeen).map fun p => (p.1, some c)

/-- One frame of the handshake: the hub and the connection after it. No connection means that it
is dropped, no result that the hub crashed. -/
def handleBotAuthentication (cr : BotCrypto) (io : AuthIo) (s : HubState) (c : BotConn)
    (data : List Nat) : Option (HubState × Option BotConn) :=
  -- only the acknowledgement is left, then the connection ends
  if c.botAuthState = .quarantine then some (retireAck cr io s c data, none)
  else if !c.authenticated && c.botAuthState = .idle then some (s, authUuid io s c data)
  else if !c.authenticated && c.botAuthState = .challengeSent then
    match authSignature cr s c data with
    | none => some (s, none)
    | some key => authGrant cr io s c key
  else some (s, none)

/-! ### Runs -/

/-- A hub and one of its connections, `none` once it is dropped. -/
structure AuthRun where
  hub : HubState := {}
  conn : Option BotConn := some {}

/-- What happens to them: a change of the store, or a frame from the connection. -/
inductive AuthEvent
  | store (clk : Clock) (op : BotOp)
  | frame (io : AuthIo) (data : List Nat)

/-- One event. The frames of an authenticated connection are no part of the handshake. -/
def AuthRun.step (cr : BotCrypto) (r : AuthRun) : AuthEvent → Option AuthRun
  | .store clk op => (op.run clk r.hub).map fun s => { r with hub := s }
  | .frame io data =>
    match r.conn with
    | none => some r
    | some c =>
      -- the handshake is over for this one
      if c.authenticated then some r
      else (handleBotAuthentication cr io r.hub c data).map fun p => ⟨p.1, p.2⟩

/-- A run from an empty hub and a fresh connection. -/
def authRun (cr : BotCrypto) (evs : List AuthEvent) : Option AuthRun :=
  evs.foldlM (AuthRun.step cr) {}

end IrcHub.Hub
