import IrcHub.Hub.Consts
import IrcHub.Hub.Cstr

/-!
# `IrcHub.Hub.State`: the replicated tables of a hub

The replicated tables of a hub, from `state.rs`: the records a hub keeps and replicates, the two
clocks every store function reads, and the last-writer-wins rules they share.

- `GlobalKey`, `BotKey`: the record kinds, with their tags on the wire
- `UserRecord`, `MaskRecord`, `UflagRecord`, `UchanRecord`, `BotConfig`, `Revoked`: the rows of
  the tables
- `HubState`: the part of the hub's state the store and the sync paths work on
- `Clock`: what the environment tells a store function: the time, and whether the config is
  loading
- `lwwAccepts`, `optAccepts`, `tsAhead`, `lwwNextTs`: what wins, what is too far ahead, and the
  stamp of a change made here
- `purgeFloorBlocks`: a tombstone below the floor may not be created while the floor holds

Text is `Str`, stamps are `Int`. A store function takes the `Clock` it runs under: the source
reads the time and the "config is loading" switch from the environment. A hash map is the function
it answers lookups with. The default values of the rows are those of the source.

Left out of `HubState`: connections, logging, the mesh and upgrade state, and the flags that only
schedule a later save or push (`config_dirty`, `bot_config_pending`).
-/

set_option autoImplicit false

namespace IrcHub.Hub

open Str

/-! ### Stored records -/

/-- The record kinds of the global table. `a` and `p` are retired singletons an old peer may
still send; `m` and `o` are the old masks; `c` is a channel; `C`, `D` and `B` are channel
settings, network defaults and bans. -/
inductive GlobalKey
  | a | p | c | m | o | C | D | B
  deriving Repr, DecidableEq

/-- The tag of a record kind on the wire. -/
def GlobalKey.tag : GlobalKey → Char
  | .a => 'a' | .p => 'p' | .c => 'c' | .m => 'm' | .o => 'o'
  | .C => 'C' | .D => 'D' | .B => 'B'

/-- The keys a bot's own state is made of. -/
inductive BotKey
  | t | n | h | pub | seen | d | hl
  deriving Repr, DecidableEq

/-- The name of a per-bot key on the wire. -/
def BotKey.name : BotKey → Str
  | .t => ['t'] | .n => ['n'] | .h => ['h'] | .pub => "pub".toList
  | .seen => "seen".toList | .d => ['d'] | .hl => "hl".toList

/-- One stored key with its value and stamp. -/
structure ConfigEntry (κ : Type) where
  key : κ
  value : Str
  timestamp : Int
  /-- Bans only: the last match a bot reported, merged outside last-writer-wins. -/
  lastUsed : Int
  deriving Repr, DecidableEq

/-- What the bots last saw of one managed channel. -/
structure ChanLearned where
  chan : Str
  key : Str
  modes : Int
  ts : Int
  deriving Repr, DecidableEq

/-- An admin (`'a'`) or oper (`'o'`) record. The defaults are the source's blank record. -/
structure UserRecord where
  uuid : Str := []
  name : Str := []
  pubkeyB64 : Str := []
  hasPubkey : Bool := false
  typ : Char := '\x00'
  isActive : Bool := false
  lastSeen : Int := 0
  timestamp : Int := 0
  deriving Repr, DecidableEq

/-- One usermask of a user. -/
structure MaskRecord where
  uuid : Str := []
  mask : Str := []
  isActive : Bool := false
  lastUsed : Int := 0
  timestamp : Int := 0
  deriving Repr, DecidableEq

/-- The admin flags of a user. -/
structure UflagRecord where
  uuid : Str := []
  flags : Str := []
  timestamp : Int := 0
  deriving Repr, DecidableEq

/-- An oper's binding to a channel. -/
structure UchanRecord where
  uuid : Str := []
  chan : Str := []
  isActive : Bool := false
  timestamp : Int := 0
  deriving Repr, DecidableEq

/-- A registered bot and its own entries. -/
structure BotConfig where
  uuid : Str
  entries : List (ConfigEntry BotKey) := []
  isActive : Bool := false
  lastSyncTime : Int := 0
  deriving Repr, DecidableEq

/-- The stored entry of one key. -/
def BotConfig.entry (b : BotConfig) (key : BotKey) : Option (ConfigEntry BotKey) :=
  b.entries.find? (fun e => e.key = key)

/-- One revoked bot. -/
structure Revoked where
  uuid : Str
  pubKey : Str
  pubTs : Int
  nick : Str
  wipedTs : Int
  delTs : Int
  deriving Repr, DecidableEq

/-- A purge seen lately. -/
structure RecentPurge where
  cutoff : Int
  id : Str
  receivedAt : Int
  deriving Repr, DecidableEq

/-- Derived from the global table: entry index by class and folded identity, entries per
class, live bans per folded channel. -/
structure GlobalIdx where
  map : Str → Option Nat := fun _ => none
  banChan : Str → Nat := fun _ => 0
  nOld : Nat := 0
  nC : Nat := 0
  nD : Nat := 0
  nB : Nat := 0

/-- The part of the hub's state the store and the sync paths work on. -/
structure HubState where
  globalEntries : List (ConfigEntry GlobalKey) := []
  globalIdx : GlobalIdx := {}
  chanLearned : List ChanLearned := []
  userRecords : List UserRecord := []
  maskRecords : List MaskRecord := []
  uflagRecords : List UflagRecord := []
  uchanRecords : List UchanRecord := []
  /-- The last removals of flag `a`, a ring. -/
  adrop : List (Str × Int) := List.replicate adminDropLog ([], 0)
  adropNext : Nat := 0
  bots : List BotConfig := []
  revoked : List Revoked := []
  optFlags : Str := []
  optFlagsTs : Int := 0
  purgeDaysSetting : Int := 0
  purgeDaysTs : Int := 0
  purgeFloor : Int := 0
  purgeFloorUntil : Int := 0
  bansSweptAt : Int := 0
  recentPurges : List RecentPurge := []
  /-- Payloads handed to the peer links, oldest first. -/
  peerOut : List Str := []

/-! ### Clock and last-writer-wins -/

/-- What the environment tells a store function: the time, and whether the hub's own config
is being loaded. -/
structure Clock where
  now : Int
  loading : Bool := false
  deriving Repr, DecidableEq

/-- Stamp for changing an existing record: now, but always past its previous stamp. -/
def lwwNextTs (clk : Clock) (prev : Int) : Int :=
  if clk.now > prev then clk.now else satSucc prev

/-- A stamp may run at most `lwwMaxFuture` past the clock, unless the config is loading. -/
def tsAhead (clk : Clock) (ts : Int) : Bool :=
  !clk.loading && decide (ts > clk.now + lwwMaxFuture)

/-- Acceptance of a replicated add/del record: a newer stamp wins, on a tie a delete beats an
add. -/
def lwwAccepts (clk : Clock) (inTs : Int) (inActive : Bool) (curTs : Int) (curActive : Bool) :
    Bool :=
  if tsAhead clk inTs then false
  else decide (inTs > curTs) || (decide (inTs = curTs) && curActive && !inActive)

/-- Acceptance of the network opt flags: a newer stamp wins, on a tie the greater text. -/
def optAccepts (clk : Clock) (inTs : Int) (inFlags : Str) (curTs : Int) (curFlags : Str) :
    Bool :=
  if tsAhead clk inTs then false
  else decide (inTs > curTs) || (decide (inTs = curTs) && decide (inFlags > curFlags))

/-- Whether a stored value is live: its op is the text after the last bar. -/
def globalValueActive (value : Str) : Bool :=
  match rsplitOnce '|' value with
  | some (_, op) => op != "del".toList
  | none => true

/-- A tombstone stamped `ts` the hub does not hold may not be created while the floor of a
purge holds. -/
def purgeFloorBlocks (clk : Clock) (s : HubState) (ts : Int) : Bool :=
  decide (s.purgeFloorUntil > clk.now) && decide (ts < s.purgeFloor)

end IrcHub.Hub
