import IrcHub.Hub.Ops

/-!
# `IrcHub.Hub.Replies`: what the console answers

What the console answers: the success answers of the commands that add a bot, a channel or a user
or remove a channel (`admin.rs`). A handler checks its payload, calls the store, ignores what the
store returns, and then composes the answer from its input. `HubOp.reply` is that answer, `none`
for a refusal and for other commands.

- `AdminReply`: a success answer, as far as it speaks of records
- `createBotReply`, `addChannelReply`, `delChannelReply`, `addUserReply`: one function for each
- `userChans`: the channels of an oper as text. Names are joined while they stay below 512 bytes

The answer is a function of the payload and of the state before the command, except that the
channels of a new oper are read off the state after it. So an answer may say more than was stored,
and when it does is a theorem about this module and the store.

Of an answer only what it says about the records is kept: not the old key, the modes, and the
numbers of bots and peers it also shows. A key is shown by its fingerprint.
-/

set_option autoImplicit false

namespace IrcHub.Hub

open Str
open String (utf8Len)

/-- A success answer. -/
inductive AdminReply
  /-- `bot.added` -/
  | botAdded (uuid nick pubKey : Str)
  /-- `channel.added`, the key empty for none -/
  | channelAdded (name key : Str)
  /-- `channel.removed` -/
  | channelRemoved (name : Str)
  /-- `user.added`, with the flags of an admin or the channels of an oper -/
  | userAdded (name : Str) (typ : Char) (pubKey mask access : Str)
  deriving Repr, DecidableEq

/-- `bot add` answers as soon as the uuid may be used and the key is one. -/
def createBotReply (s : HubState) (payload : Str) : Option AdminReply :=
  match splitFields payload 3 with
  | [nick, uuid, f] =>
    match scanWord f 255 with
    | some key =>
      if !scanOk nick 63 || !scanOk uuid 63 || !uuidShape uuid || !pubOk key || isRevoked s uuid
          || (botFind s uuid).isSome then none
      else some (.botAdded uuid nick key)
    | none => none
  | _ => none

/-- `channel add` checks the name and the key. -/
def addChannelReply (payload : Str) : Option AdminReply :=
  let chan := (wireField payload 0 128).getD []
  let key := (wireTail payload 1 64).getD []
  if payload.isEmpty || !chanNameValid chan
      || key.any (fun c => decide (c.toNat ≤ 0x20) || c == ',') then none
  else some (.channelAdded chan key)

/-- `channel del` takes the whole payload as the name. -/
def delChannelReply (payload : Str) : Option AdminReply :=
  if payload.isEmpty then none else some (.channelRemoved payload)

/-- Names with a comma between them, as many as stay below 512 bytes. -/
def joinChans : Str → List Str → Str
  | out, [] => out
  | out, chan :: chans =>
    let sep : Str := if out.isEmpty then [] else [',']
    if utf8Len out + utf8Len (sep ++ chan) ≥ 512 then out
      else joinChans (out ++ (sep ++ chan)) chans

/-- The channels of an oper as text. -/
def userChans (s : HubState) (uuid : Str) : Str :=
  let live := liveBindings s uuid
  if live.contains ['*'] then ['*'] else joinChans [] live

/-- `user add` shows the flags it was given, or the channels the oper has afterwards. -/
def addUserReply (clk : Clock) (s : HubState) (payload : Str) (typ : Char) (uuid : Str) :
    Option AdminReply :=
  match userAddFields payload with
  | none => none
  | some u =>
    match userAddAccess s typ u.access with
    | none => none
    | some (flags, chans) =>
      if !userAddOk s typ u chans then none
      else
        some (.userAdded u.name typ u.pubKey u.mask
          (if typ = 'a' then flags else userChans (addUserRecord clk s payload typ uuid) uuid))

/-- The success answer of a command. -/
def HubOp.reply (clk : Clock) (s : HubState) : HubOp → Option AdminReply
  | .botAdd payload => createBotReply s (untilNul payload)
  | .chanAdd payload => addChannelReply (untilNul payload)
  | .chanDel payload => delChannelReply (untilNul payload)
  | .userAdd admin payload random =>
    addUserReply clk s (untilNul payload) (if admin then 'a' else 'o') (genUuidV4 random)
  | _ => none

end IrcHub.Hub
