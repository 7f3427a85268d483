import IrcHub.Ui.Text

/-!
# `IrcHub.Ui.Tables`: the console's commands

The console's commands, as the source has them: the table of commands (`cmds`), the admin flag
each one needs to change something (`cmdFlags`), what `help` says of each (`cmdHelp`), and the
settings it lists (`setInfo`).

* `CmdDef`: a row: the words of the command, the opcode of its request, how the request is built,
  how many arguments it takes, how it is confirmed, what is read before the question, the request
  of its view, and its texts
* `Confirm`: not at all, by y or N, or by an exact word
* `Pre`: what is read first, so that the question can name the object
* `groups`: the groups of commands, and what each is about

The texts are data the model reads: usage lines and hints are part of the refusals, and `help` is
laid out from them. They are kept whole, and no theorem reads one of them back.
-/

set_option autoImplicit false

namespace IrcHub.Console

/-! ### Opcodes -/

def consoleReply : UInt8 := 0x00
def cmdAdminListFull : UInt8 := 0x11
def cmdAdminDel : UInt8 := 0x13
def cmdAdminRegenKeys : UInt8 := 0x14
def cmdAdminListSummary : UInt8 := 0x15
def cmdAdminAddPeer : UInt8 := 0x18
def cmdAdminListPeers : UInt8 := 0x19
def cmdAdminDelPeer : UInt8 := 0x1a
def cmdAdminGetPubkey : UInt8 := 0x1b
def cmdAdminSetPubkey : UInt8 := 0x1e
def cmdAdminSyncMesh : UInt8 := 0x1f
def cmdAdminRekeyBot : UInt8 := 0x20
def cmdAdminDisconnectBot : UInt8 := 0x21
def cmdAdminListChannels : UInt8 := 0x23
def cmdAdminAddChannel : UInt8 := 0x24
def cmdAdminDelChannel : UInt8 := 0x25
def cmdAdminOpUser : UInt8 := 0x31
def cmdAdminCreateBot : UInt8 := 0x32
def cmdAdminPurgeTombstones : UInt8 := 0x36
def cmdAdminSetBindIp : UInt8 := 0x37
def cmdAdminListAllowlist : UInt8 := 0x38
def cmdAdminAddAllowlist : UInt8 := 0x39
def cmdAdminDelAllowlist : UInt8 := 0x3a
def cmdAdminAddDenylist : UInt8 := 0x3c
def cmdAdminDelDenylist : UInt8 := 0x3d
def cmdAdminSetHubName : UInt8 := 0x3e
def cmdAdminSetBindPort : UInt8 := 0x3f
def cmdAdminSetPurgeDays : UInt8 := 0x41
def cmdAdminSetLogLevel : UInt8 := 0x43
def cmdAdminSetLogSize : UInt8 := 0x44
def cmdAdminAddAdmin : UInt8 := 0x46
def cmdAdminDelAdmin : UInt8 := 0x47
def cmdAdminAddOperRecord : UInt8 := 0x48
def cmdAdminAddUsermask : UInt8 := 0x4a
def cmdAdminDelUsermask : UInt8 := 0x4b
def cmdAdminMatch : UInt8 := 0x4d
def cmdAdminListAdmins : UInt8 := 0x4e
def cmdAdminListOpersV2 : UInt8 := 0x4f
def cmdAdminSetPeerPubkey : UInt8 := 0x52
def cmdAdminSetOptFlags : UInt8 := 0x53
def cmdAdminGetOptFlags : UInt8 := 0x54
def cmdAdminSetUserkey : UInt8 := 0x55
def cmdAdminUpgradeNet : UInt8 := 0x63
def cmdAdminUpgradeStatus : UInt8 := 0x64
def cmdAdminStats : UInt8 := 0x68
def cmdConsole : UInt8 := 0x6c
def cmdAdminInviteUser : UInt8 := 0x75
def cmdAdminChanMode : UInt8 := 0x76
def cmdAdminChanSet : UInt8 := 0x77
def cmdAdminBan : UInt8 := 0x78
def cmdAdminNetSet : UInt8 := 0x79
def cmdAdminSetSsh : UInt8 := 0x7a
def cmdAdminUserAccess : UInt8 := 0x7c
def cmdAdminListRevoked : UInt8 := 0x81
def cmdAdminPeerRefs : UInt8 := 0x82

/-! ### The command table -/

/-- How a command is confirmed: y/N, or an exact word. -/
inductive Confirm
  | none | yn | type
  deriving Repr, DecidableEq

/-- What is read before a question, so that it can name the object. -/
inductive Pre
  | none | botDel | botKick | peerDel | opt | userDel | userKey | upgStart
  deriving Repr, DecidableEq

/-- How a command's request is built. -/
inductive Build
  | none | arg | pipe | peerAdd | hubShow | chanAdd | chanSet | chanOp | optSet | logSet | purge
  | hubSet | acl | userList | userAdd | userSet | userMask | upgReleases | upgStart | fixed
  | localCmd | chanModes | ban | netSet | userChan deriving Repr, DecidableEq

/-- A row of the command table. -/
structure CmdDef where
  cmd : String
  sub : Option String
  op : UInt8
  build : Build
  nargs : Nat
  optargs : Nat
  confirm : Confirm
  pre : Pre
  fixed : String
  usage : String
  help : String
  args : Option String
  deriving DecidableEq

def cmds : List CmdDef := [
  ⟨"help", none, 0, .localCmd, 0, 2, .none, .none, "",
    "help [group [command]]",
    "the command groups, one group's commands, or one command in full (? does the same)", none⟩,
  ⟨"quit", none, 0, .localCmd, 0, 0, .none, .none, "",
    "quit",
    "close this console", none⟩,
  ⟨"bot", some "list", cmdAdminListFull, .none, 0, 0, .none, .none, "",
    "bot list",
    "every registered bot: state, hub, version, last seen", none⟩,
  ⟨"bot", some "show", cmdAdminListFull, .arg, 1, 0, .none, .none, "",
    "bot show <uuid|nick>",
    "one bot in detail", none⟩,
  ⟨"bot", some "summary", cmdAdminListSummary, .none, 0, 0, .none, .none, "",
    "bot summary",
    "every bot's nick and uuid", none⟩,
  ⟨"bot", some "revoked", cmdAdminListRevoked, .none, 0, 0, .none, .none, "",
    "bot revoked",
    "deleted bots: told to wipe their config if they ever connect", none⟩,
  ⟨"bot", some "add", cmdAdminCreateBot, .pipe, 3, 0, .none, .none, "",
    "bot add <nick> <uuid> <key>",
    "register a bot from the identity its -setup printed",
    some "uuid and key: run ./ircbot -id on the bot's host"⟩,
  ⟨"bot", some "del", cmdAdminDel, .arg, 1, 0, .yn, .botDel, "",
    "bot del <uuid|nick>",
    "delete a bot everywhere for good (asks y/N; wipes its config and stops it)", none⟩,
  ⟨"bot", some "kick", cmdAdminDisconnectBot, .arg, 1, 0, .yn, .botKick, "",
    "bot kick <uuid|nick>",
    "drop its connection to this hub (asks y/N; it reconnects)", none⟩,
  ⟨"bot", some "rekey", cmdAdminRekeyBot, .arg, 1, 0, .none, .none, "",
    "bot rekey <uuid>",
    "how to rekey a bot (only the bot can)", none⟩,
  ⟨"bot", some "tree", cmdConsole, .fixed, 0, 0, .none, .none, "get|tree",
    "bot tree",
    "every hub and bot as a tree", none⟩,
  ⟨"bot", some "set", cmdAdminNetSet, .netSet, 0, 3, .none, .none, "",
    "bot set [flood <cmd|msg|ctcp> <N:S|off|default> | ignoretime <min|default> | sendq <B:I|" ++
    "default>]",
    "show the bot settings, or change one (every bot gets it)", none⟩,
  ⟨"hub", some "show", cmdAdminGetPubkey, .hubShow, 0, 1, .none, .none, "",
    "hub show [#|uuid|name]",
    "this hub (identity, key, listener, counts), or one linked hub in detail", none⟩,
  ⟨"hub", some "list", cmdAdminListPeers, .none, 0, 0, .none, .none, "",
    "hub list",
    "the other hubs, the mesh links and their health", none⟩,
  ⟨"hub", some "add", cmdAdminAddPeer, .peerAdd, 5, 0, .none, .none, "",
    "hub add <ip> <port> <uuid> <name|-> <key>",
    "link another hub", some "uuid and key: hub show or ./irchub -id on that hub"⟩,
  ⟨"hub", some "del", cmdAdminDelPeer, .arg, 1, 0, .yn, .peerDel, "",
    "hub del <uuid|name>",
    "unlink a hub from this hub only (shows which hubs and bots still list it; asks y/N)", none⟩,
  ⟨"hub", some "set", 0, .hubSet, 0, 3, .none, .none, "",
    "hub set <setting> <value> | hub set ssh|conn [<name> <value|default>] | hub set <#|uuid|" ++
    "name> key <key>",
    "name, bindip, port, pubkey or autopurge; ssh and conn: this hub's connection limits " ++
    "(alone: the table); <hub> key: replace a linked hub's key", none⟩,
  ⟨"hub", some "sync", cmdAdminSyncMesh, .none, 0, 0, .none, .none, "",
    "hub sync",
    "send a full sync to every linked hub", none⟩,
  ⟨"hub", some "stats", cmdAdminStats, .none, 0, 0, .none, .none, "",
    "hub stats",
    "traffic, connections and maintenance timers", none⟩,
  ⟨"hub", some "rekey", cmdAdminRegenKeys, .none, 0, 0, .type, .none, "",
    "hub rekey",
    "new hub keypair; every other hub and bot must re-learn it", none⟩,
  ⟨"hub", some "purge", cmdAdminPurgeTombstones, .purge, 1, 0, .yn, .none, "",
    "hub purge <now|days>",
    "purge tombstones now, or those older than <days> (daily: hub set autopurge)", none⟩,
  ⟨"log", some "show", cmdConsole, .fixed, 0, 0, .none, .none, "get|log",
    "log show",
    "log levels, sizes and this session's log", none⟩,
  ⟨"log", some "set", 0, .logSet, 2, 0, .none, .none, "",
    "log set file|console|size <value>",
    "the file or console ring level, or the file size limit",
    some ("level: none error warning info debug or 0-4 · size: <MB>, <n>k or <n>b, at most " ++
          "1024 MB")⟩,
  ⟨"log", some "on", 0, .localCmd, 0, 1, .none, .none, "",
    "log on [level]",
    "line mode: stream hub log lines", none⟩,
  ⟨"log", some "off", 0, .localCmd, 0, 0, .none, .none, "",
    "log off",
    "line mode: stop the log lines", none⟩,
  ⟨"log", some "filter", 0, .localCmd, 1, 64, .none, .none, "",
    "log filter <text|clear>",
    "full screen: log view lines containing <text>", none⟩,
  ⟨"acl", some "list", cmdAdminListAllowlist, .none, 0, 0, .none, .none, "",
    "acl list",
    "the allow and deny lists", none⟩,
  ⟨"acl", some "add", 0, .acl, 2, 1, .none, .none, "",
    "acl add allow|deny <ip[/n]> [console]",
    "add an address or network (console: applies only to SSH logins)", none⟩,
  ⟨"acl", some "del", 0, .acl, 2, 1, .yn, .none, "",
    "acl del allow|deny <ip[/n]> [console]",
    "remove an address or network (asks y/N)", none⟩,
  ⟨"option", some "list", cmdAdminGetOptFlags, .none, 0, 0, .none, .none, "",
    "option list",
    "the network option flags", none⟩,
  ⟨"option", some "set", cmdAdminSetOptFlags, .optSet, 1, 0, .yn, .opt, "",
    "option set <flags|->",
    "set the network option flags (- clears)", none⟩,
  ⟨"user", some "list", 0, .userList, 0, 1, .none, .none, "",
    "user list [admin|oper]",
    "every user (or one role): key, last seen, masks", none⟩,
  ⟨"user", some "show", cmdAdminMatch, .arg, 1, 0, .none, .none, "",
    "user show <name|*>",
    "one user (or all) with masks and their last use", none⟩,
  ⟨"user", some "add", 0, .userAdd, 5, 0, .none, .none, "",
    "user add admin|oper <name> <key> <mask> <flags|channels>",
    "add an admin (with flags) or an oper (with channels)",
    some "admin flags: +a full, or b c h o u · oper channels: * or #a,#b"⟩,
  ⟨"user", some "del", cmdAdminDelAdmin, .arg, 1, 0, .yn, .userDel, "",
    "user del <name>",
    "remove a user and their masks", none⟩,
  ⟨"user", some "set", cmdAdminSetUserkey, .userSet, 3, 0, .yn, .userKey, "",
    "user set <name> key <key> | user set <name> flags <+x-y>",
    "replace a user's key (asks y/N), or an admin's flags", none⟩,
  ⟨"user", some "chan", cmdAdminUserAccess, .userChan, 3, 0, .none, .none, "",
    "user chan add|del <name> <#chan|*>",
    "give an oper a channel (or * = every channel), or take it away", none⟩,
  ⟨"user", some "mask", 0, .userMask, 3, 0, .none, .none, "",
    "user mask add|del <name> <mask>",
    "add or remove a usermask (del asks y/N)", none⟩,
  ⟨"channel", some "list", cmdAdminListChannels, .none, 0, 0, .none, .none, "",
    "channel list",
    "every managed channel with its settings", none⟩,
  ⟨"channel", some "show", cmdAdminListChannels, .arg, 1, 0, .none, .none, "",
    "channel show <#chan>",
    "one channel in detail", none⟩,
  ⟨"channel", some "add", cmdAdminAddChannel, .chanAdd, 1, 1, .none, .none, "",
    "channel add <#chan> [key]",
    "add (or re-add) a channel", none⟩,
  ⟨"channel", some "del", cmdAdminDelChannel, .arg, 1, 0, .yn, .none, "",
    "channel del <#chan>",
    "remove it from every bot (asks y/N)", none⟩,
  ⟨"channel", some "mode", cmdAdminChanMode, .chanModes, 1, 3, .none, .none, "",
    "channel mode <#chan> [<+modes> [key] [limit] | -]",
    "show the channel's modes, or store them and apply them once",
    some "modes: i m n p s t k l · - = the network default"⟩,
  ⟨"channel", some "set", cmdAdminChanSet, .chanSet, 1, 48, .none, .none, "",
    "channel set <#chan|default> [+opt|-opt|<name> <value>|flood <type> <N:S|off>]",
    "show a channel's settings, or change them (default = the network default)", none⟩,
  ⟨"channel", some "op", cmdAdminOpUser, .chanOp, 2, 0, .none, .none, "",
    "channel op <#chan> <nick>",
    "have one opped bot op a user", none⟩,
  ⟨"channel", some "invite", cmdAdminInviteUser, .chanOp, 2, 0, .none, .none, "",
    "channel invite <#chan> <nick>",
    "have one opped bot invite a user", none⟩,
  ⟨"ban", some "list", cmdAdminBan, .ban, 0, 1, .none, .none, "",
    "ban list [#chan|*]",
    "the network's listed bans (one channel, or * = every channel)", none⟩,
  ⟨"ban", some "add", cmdAdminBan, .ban, 2, 0, .none, .none, "",
    "ban add <#chan|*> <mask> [<min>|perm] [sticky] [reason]",
    "list a ban; the bots set it on the channel (never on a bot or user)", none⟩,
  ⟨"ban", some "del", cmdAdminBan, .ban, 2, 0, .none, .none, "",
    "ban del <#chan|*> <mask>",
    "remove a listed ban", none⟩,
  ⟨"upgrade", some "status", cmdAdminUpgradeStatus, .fixed, 0, 0, .none, .none, "",
    "upgrade status",
    "the upgrade run on this hub", none⟩,
  ⟨"upgrade", some "releases", cmdAdminUpgradeStatus, .upgReleases, 0, 0, .none, .none, "",
    "upgrade releases",
    "releases both products offer, and the nodes", none⟩,
  ⟨"upgrade", some "start", cmdAdminUpgradeNet, .upgStart, 1, 4, .yn, .upgStart, "",
    "upgrade start bot=<ver> [hub=<ver>] [nodes=<a,b=c>]",
    "start a rolling network upgrade (shows the plan, asks y/N)", none⟩,
  ⟨"upgrade", some "abort", cmdAdminUpgradeStatus, .fixed, 0, 0, .yn, .none, "abort",
    "upgrade abort",
    "stop the run and roll back", none⟩,
  ⟨"upgrade", some "forget", cmdAdminUpgradeStatus, .fixed, 0, 0, .yn, .none, "forget",
    "upgrade forget",
    "drop the roll-up plan on every hub", none⟩,
  ⟨"display", some "show", 0, .localCmd, 0, 0, .none, .none, "",
    "display show",
    "this session's display settings", none⟩,
  ⟨"display", some "view", 0, .localCmd, 1, 0, .none, .none, "",
    "display view <1-5>",
    "full screen: console, log, network, upgrades, stats", none⟩,
  ⟨"display", some "pane", 0, .localCmd, 0, 0, .none, .none, "",
    "display pane",
    "full screen: show or hide the tree pane (F3)", none⟩,
  ⟨"display", some "ascii", 0, .localCmd, 0, 0, .none, .none, "",
    "display ascii",
    "plain ASCII glyphs for this session (again: Unicode)", none⟩,
  ⟨"display", some "format", 0, .localCmd, 1, 0, .none, .none, "",
    "display format pretty|raw",
    "laid-out output, or the records as the hub sends them", none⟩,
  ⟨"display", some "width", 0, .localCmd, 1, 0, .none, .none, "",
    "display width <60-250|auto>",
    "line mode: the output width", none⟩,
  ⟨"display", some "events", 0, .localCmd, 1, 0, .none, .none, "",
    "display events on|off",
    "line mode: a line for each hub, bot and upgrade change", none⟩,
  ⟨"display", some "clear", 0, .localCmd, 0, 0, .none, .none, "",
    "display clear",
    "full screen: clear the current view", none⟩]

/-- The groups of commands, and what each is about. -/
def groups : List (String × String) := [
  ("bot", "registered bots"),
  ("hub", "this hub and the hubs it links to"),
  ("log", "the hub log"),
  ("acl", "IP allow / deny lists"),
  ("option", "network option flags"),
  ("user", "admins and opers"),
  ("channel", "managed channels"),
  ("ban", "listed bans"),
  ("upgrade", "rolling upgrades"),
  ("display", "this session's screen")]

/-- The admin flag a command needs. -/
def cmdFlags : List (String × String × String) := [
  ("bot", "add", "b"), ("bot", "del", "b"), ("bot", "kick", "b"), ("bot", "rekey", "b"),
  ("bot", "set", "b"), ("hub", "add", "h"), ("hub", "del", "h"), ("hub", "set", "h"),
  ("hub", "sync", "h"), ("hub", "rekey", "h"), ("hub", "purge", "h"), ("log", "set", "h"),
  ("acl", "add", "h"), ("acl", "del", "h"), ("option", "set", "a"), ("user", "add", "a/o"),
  ("user", "del", "a/o"), ("user", "set", "a/o"), ("user", "mask", "a/o"), ("user", "chan", "o"),
  ("channel", "add", "c"), ("channel", "del", "c"), ("channel", "mode", "c"),
  ("channel", "set", "c"), ("channel", "op", "c"), ("channel", "invite", "c"),
  ("ban", "add", "c"), ("ban", "del", "c"), ("upgrade", "start", "u"), ("upgrade", "abort", "u"),
  ("upgrade", "forget", "u")]

/-! ### Help -/

/-- What `help` says of a command: its arguments (name, tab, text) and examples, a line each. -/
def cmdHelp : List (String × Option String × Option (List String) × List String) := [
  ("help", none,
    some ["group\tone of: bot hub log acl option user channel ban upgrade display",
          "command\tone of that group's commands: its arguments and an example",
          "?\ttyped in place of help it does the same"],
    ["help",
     "help bot",
     "help bot add",
     "? upgrade start"]),
  ("quit", none, none,
    ["quit"]),
  ("bot", some "list", none,
    ["bot list"]),
  ("bot", some "show",
    some ["uuid|nick\tthe bot's uuid or its current nick (Tab completes both)"],
    ["bot show alpha",
     "bot show 00010203-0405-4607-8809-0a0b0c0d0e0f"]),
  ("bot", some "summary", none,
    ["bot summary"]),
  ("bot", some "revoked", none,
    ["bot revoked"]),
  ("bot", some "add",
    some ["nick\tthe bot's IRC nick",
          "uuid\tthe bot's uuid.  Where to get it: on the bot's host, in its directory, run " ++
          "./ircbot -id (it asks for the config password unless .ircbot.pass is there); it " ++
          "prints the uuid, the key and this whole bot add line.  -setup printed the same two " ++
          "values when the bot was made",
          "key\tthe bot's 88-character base64 public key, from the same ./ircbot -id"],
    ["bot add alpha 00010203-0405-4607-8809-0a0b0c0d0e0f " ++
     "O7Eu2jwpjbXeJVl/VNkk8uF+eKJq2JU+2CGO5oLwu76QIeLzAJ0VLJEb8fJexoOpAnFBZnZ6+9jlvQ+wEk7Lig=="]),
  ("bot", some "del",
    some ["uuid|nick\tthe bot's uuid or its nick (Tab completes both); asks y/N.  The bot is " ++
          "told to wipe its config and exit, now if it is connected, else whenever it next " ++
          "connects to any hub; its uuid can never be added again"],
    ["bot del alpha",
     "bot del 00010203-0405-4607-8809-0a0b0c0d0e0f"]),
  ("bot", some "kick",
    some ["uuid|nick\ta connected bot's uuid or its nick (Tab completes both); asks y/N; it " ++
          "reconnects"],
    ["bot kick alpha",
     "bot kick 00010203-0405-4607-8809-0a0b0c0d0e0f"]),
  ("bot", some "rekey",
    some ["uuid\tthe bot's uuid; prints how to rekey it on its host"],
    ["bot rekey 00010203-0405-4607-8809-0a0b0c0d0e0f"]),
  ("bot", some "tree", none,
    ["bot tree"]),
  ("bot", some "set",
    some ["(none)\tshows every bot setting: its value, where it comes from, its default",
          "flood <type>\tcmd, msg or ctcp (below), then N:S = more than N in S seconds trips " ++
          "it (N 1-1000, S 1-3600), off = no limit, default = back to the built-in",
          "ignoretime\tminutes (1-1440), or default",
          "sendq\tB:I = B lines (1-100) at once, then one every I ms (0-10000, 0 = no delay), " ++
          "or default",
          "(scope)\tevery bot on every hub gets the same values; there is no per-bot setting"],
    ["bot set",
     "bot set flood cmd 10:30",
     "bot set flood msg off",
     "bot set ignoretime 20",
     "bot set sendq 5:250",
     "bot set sendq default"]),
  ("hub", some "show",
    some ["#|uuid|name\talone: this hub; else a linked hub by the number hub list shows, its " ++
          "uuid, or its name"],
    ["hub show",
     "hub show 1",
     "hub show east"]),
  ("hub", some "list", none,
    ["hub list"]),
  ("hub", some "add",
    some ["ip\tthe other hub's address (no ':', so an IPv4 address or a host name)",
          "port\tits listening port, 1-65535",
          "uuid\tits uuid.  Where to get it: hub show in that hub's console, or ./irchub -id " ++
          "in that hub's directory on its host (it asks for the config password unless " ++
          ".irchub.pass is there); -id also prints this whole hub add line",
          "name|-\ta name for it, or - to learn its name from that hub",
          "key\tits 88-character public key, from the same hub show or ./irchub -id.  Its " ++
          "hub_public.b64 is only -setup's copy and goes stale after a hub rekey there"],
    ["hub add 203.0.113.7 6697 00010203-0405-4607-8809-0a0b0c0d0e0f east " ++
     "O7Eu2jwpjbXeJVl/VNkk8uF+eKJq2JU+2CGO5oLwu76QIeLzAJ0VLJEb8fJexoOpAnFBZnZ6+9jlvQ+wEk7Lig==",
     "hub add 203.0.113.7 6697 00010203-0405-4607-8809-0a0b0c0d0e0f - " ++
     "O7Eu2jwpjbXeJVl/VNkk8uF+eKJq2JU+2CGO5oLwu76QIeLzAJ0VLJEb8fJexoOpAnFBZnZ6+9jlvQ+wEk7Lig=="]),
  ("hub", some "del",
    some ["uuid|name\tthe hub's uuid or name, as hub list shows it. It is unlinked on this " ++
          "hub only: first you see which other hubs link to it and which bots list it, with " ++
          "what to run on each (hub del there, -hub on the bot)"],
    ["hub del east",
     "hub del 00010203-0405-4607-8809-0a0b0c0d0e0f"]),
  ("hub", some "set",
    some ["setting\tname, bindip, port, pubkey or autopurge; alone it shows them all. ssh and " ++
          "conn are this hub's connection limits: hub set ssh | hub set conn show them; ssh " ++
          "<name> <value|default> changes one (ssh: preauth preauthip sessions grace " ++
          "authtries idle authfail connect block cmdrate; conn: perip churn authfail " ++
          "startups). N:S is N per S seconds; block doubles per repeat within 24 h up to 24 " ++
          "h. A change applies to the next connection",
          "value\tname: this hub's name · bindip: the address it listens on · port: 1-65535 · " ++
          "pubkey: the key its private key derives (a new key is hub rekey) · autopurge: days " ++
          "to keep tombstones, 0 = off",
          "#|uuid|name key\ta linked hub (its number in hub list, its uuid, or its name), " ++
          "then key and its new 88-character public key: hub show or ./irchub -id on that hub"],
    ["hub set",
     "hub set name west",
     "hub set port 6697",
     "hub set autopurge 30",
     "hub set ssh",
     "hub set ssh preauth 16",
     "hub set ssh authfail 3:3600",
     "hub set conn perip 8",
     "hub set conn churn 30:10:30",
     "hub set east key " ++
     "O7Eu2jwpjbXeJVl/VNkk8uF+eKJq2JU+2CGO5oLwu76QIeLzAJ0VLJEb8fJexoOpAnFBZnZ6+9jlvQ+wEk7Lig=="]),
  ("hub", some "sync", none,
    ["hub sync"]),
  ("hub", some "stats", none,
    ["hub stats"]),
  ("hub", some "rekey",
    some ["(confirm)\tyou type this hub's name to go ahead; every other hub and bot must then " ++
          "learn the new key"],
    ["hub rekey"]),
  ("hub", some "purge",
    some ["now|days\tnow purges every tombstone; a number purges those older than that many " ++
          "days (asks y/N).  To purge on a schedule: hub set autopurge <days>, checked daily " ++
          "on every hub.  Deleted bots stay on bot revoked either way"],
    ["hub purge now",
     "hub purge 30"]),
  ("log", some "show", none,
    ["log show"]),
  ("log", some "set",
    some ["file|console|size\twhich: the log file's level, the console ring's level, or the " ++
          "file size limit",
          "value\ta level (none error warning info debug, or 0-4) for file and console; for " ++
          "size <MB>, <n>k or <n>b, at most 1024 MB"],
    ["log set file info",
     "log set console debug",
     "log set size 50",
     "log set size 512k"]),
  ("log", some "on",
    some ["level\tnone error warning info debug, or 0-4 (default info)"],
    ["log on",
     "log on debug"]),
  ("log", some "off", none,
    ["log off"]),
  ("log", some "filter",
    some ["text|clear\tthe rest of the line is the text a log view line must contain (any " ++
          "case); clear drops the filter"],
    ["log filter UPGRADE",
     "log filter east",
     "log filter clear"]),
  ("acl", some "list", none,
    ["acl list"]),
  ("acl", some "add",
    some ["allow|deny\twhich list",
          "ip[/n]\tan IPv4 or IPv6 address, or a network as address/prefix",
          "console\toptional scope word: the entry applies only once the connection says SSH " ++
          "(bots and other hubs are not affected); without it the entry applies to everything"],
    ["acl add allow 203.0.113.0/24",
     "acl add deny 198.51.100.9",
     "acl add allow 203.0.113.7 console"]),
  ("acl", some "del",
    some ["allow|deny\twhich list",
          "ip[/n]\tthe entry exactly as acl list shows it",
          "console\tgive it for an entry that was added with it (asks y/N)"],
    ["acl del deny 198.51.100.9",
     "acl del allow 203.0.113.7 console"]),
  ("option", some "list", none,
    ["option list"]),
  ("option", some "set",
    some ["flags|-\tthe whole new set of flag letters (it replaces the old set; option list " ++
          "explains each); - clears them all (asks y/N)"],
    ["option set h",
     "option set -"]),
  ("user", some "list",
    some ["admin|oper\tonly that role (default both)"],
    ["user list",
     "user list oper"]),
  ("user", some "show",
    some ["name|*\ta user's name, or * for every user"],
    ["user show robert",
     "user show *"]),
  ("user", some "add",
    some ["admin|oper\tthe role",
          "name\tthe user's name",
          "key\ttheir 88-character public key (keygen's <stamp>_<name>.public.b64)",
          "mask\ta first usermask, nick!user@host (* and ? match)",
          "flags\tan admin: +a for a full admin (every command), or the letters of what they " ++
          "may change: b bots, c channels, h hub, o opers, u upgrades (+chu; listed below); " ++
          "every admin may log in and view everything",
          "channels\tan oper: * for every channel, or the channels, comma-separated " ++
          "(#ircbot,#dev); on each they may op, invite, unban, key"],
    ["user add admin robert " ++
     "O7Eu2jwpjbXeJVl/VNkk8uF+eKJq2JU+2CGO5oLwu76QIeLzAJ0VLJEb8fJexoOpAnFBZnZ6+9jlvQ+wEk7Lig==" ++
     " robert!*@* +a",
     "user add admin dana " ++
     "O7Eu2jwpjbXeJVl/VNkk8uF+eKJq2JU+2CGO5oLwu76QIeLzAJ0VLJEb8fJexoOpAnFBZnZ6+9jlvQ+wEk7Lig==" ++
     " dana!*@* +chu",
     "user add oper alice " ++
     "O7Eu2jwpjbXeJVl/VNkk8uF+eKJq2JU+2CGO5oLwu76QIeLzAJ0VLJEb8fJexoOpAnFBZnZ6+9jlvQ+wEk7Lig==" ++
     " alice!*@*.example.net *",
     "user add oper alice " ++
     "O7Eu2jwpjbXeJVl/VNkk8uF+eKJq2JU+2CGO5oLwu76QIeLzAJ0VLJEb8fJexoOpAnFBZnZ6+9jlvQ+wEk7Lig==" ++
     " alice!*@*.example.net #ircbot"]),
  ("user", some "del",
    some ["name\tthe user, either role; their masks go too (an admin: type the name to " ++
          "confirm; an oper: y/N)"],
    ["user del alice"]),
  ("user", some "set",
    some ["name\tthe user",
          "key|flags\tthe setting: key (anyone's; your own needs no flag) or flags (an " ++
          "admin's, needs +a)",
          "value\tkey: their new 88-character public key (asks y/N) · flags: +c-u adds and " ++
          "removes, chu or +a replaces them all (the letters are listed below)"],
    ["user set alice key " ++
     "O7Eu2jwpjbXeJVl/VNkk8uF+eKJq2JU+2CGO5oLwu76QIeLzAJ0VLJEb8fJexoOpAnFBZnZ6+9jlvQ+wEk7Lig==",
     "user set dana flags +b-u",
     "user set dana flags +a"]),
  ("user", some "chan",
    some ["add|del\tgive the channel, or take it away",
          "name\tthe oper",
          "#chan|*\ta channel, or * for every channel; * and channels exclude each other (add " ++
          "* drops the channels, add #c drops *), del * takes everything away"],
    ["user chan add alice #ops",
     "user chan del alice #dev",
     "user chan add alice *",
     "user chan del alice *"]),
  ("user", some "mask",
    some ["add|del\tadd a mask, or remove one (del asks y/N)",
          "name\tthe user",
          "mask\tnick!user@host (* and ? match)"],
    ["user mask add alice alice!*@203.0.113.*",
     "user mask del alice alice!*@*.example.net"]),
  ("channel", some "list", none,
    ["channel list"]),
  ("channel", some "show",
    some ["#chan\tthe channel's name"],
    ["channel show #ops"]),
  ("channel", some "add",
    some ["#chan\tthe channel's name",
          "key\tits channel key, if it has one"],
    ["channel add #ops",
     "channel add #ops s3cret"]),
  ("channel", some "del",
    some ["#chan\tthe channel; every bot parts it (asks y/N)"],
    ["channel del #ops"]),
  ("channel", some "mode",
    some ["#chan\tthe channel; alone it shows its stored and live modes",
          "+modes\tthe modes it should have, from i m n p s t k l with + and - (+nt, +stnkl " ++
          "key 20, -i); stored on every hub and bot, then applied once by one opped bot",
          "key, limit\tthe argument +k takes (no space or comma, 30 bytes), then the one +l " ++
          "takes (1-99999), left to right",
          "-\tgo back to the network default (+nt unless the network sets one)"],
    ["channel mode #ops",
     "channel mode #ops +nt",
     "channel mode #ops +stnkl s3cret 20",
     "channel mode #ops -"]),
  ("channel", some "set",
    some ["#chan|default\tthe channel, or default for the network default every channel " ++
          "inherits; alone it lists every setting, its value, where it comes from and its " ++
          "default",
          "+name -name\tturn an on/off option (below) on or off; several in one line",
          "name value\ta valued setting (below) and its new value, or default to drop the " ++
          "channel's own value and inherit again",
          "flood type\tone of the channel floods (below), then N:S = more than N in S seconds " ++
          "from one host trips it, off = no limit here, default = inherit",
          "(who)\tonly unauthorised members are acted on, and only by an opped bot"],
    ["channel set #ops",
     "channel set #ops +bitch +enforcemodes",
     "channel set #ops bantime 60",
     "channel set #ops bantime default",
     "channel set #ops flood join 10:60",
     "channel set #ops flood chan off",
     "channel set default -dynamicbans"]),
  ("channel", some "op",
    some ["#chan\tthe channel",
          "nick\tthe user's current nick on IRC"],
    ["channel op #ops alice"]),
  ("channel", some "invite",
    some ["#chan\tthe channel",
          "nick\tthe user's current nick on IRC"],
    ["channel invite #ops alice"]),
  ("ban", some "list",
    some ["#chan|*\tonly that channel's bans, or * for the global ones (default: all)"],
    ["ban list",
     "ban list #ops",
     "ban list *"]),
  ("ban", some "add",
    some ["#chan|*\tthe channel, or * for every managed channel",
          "mask\tnick!user@host (* and ? match); refused if it would also match a bot or an " ++
          "authorised user",
          "min|perm\thow long it lasts (default perm)",
          "sticky\tthe bots put it back at once if an op removes it from the channel",
          "reason\tthe rest of the line (120 bytes)"],
    ["ban add #ops *!*@203.0.113.7",
     "ban add * *!*@*.badhost.example 1440 sticky open proxy"]),
  ("ban", some "del",
    some ["#chan|*\tas listed by ban list",
          "mask\tthe mask exactly as ban list shows it"],
    ["ban del #ops *!*@203.0.113.7"]),
  ("upgrade", some "status", none,
    ["upgrade status"]),
  ("upgrade", some "releases", none,
    ["upgrade releases"]),
  ("upgrade", some "start",
    some ["bot=<ver>\tthe bot version to move to, as upgrade releases lists it (required)",
          "hub=<ver>\talso move the hubs to this version (- or left out = leave them)",
          "nodes=<sel>\tonly these nodes: names or uuids, comma-separated; name=c or name=rs " ++
          "also switches that node's build (default: the whole network)",
          "(confirm)\tit shows the plan, then asks y/N to start"],
    ["upgrade start bot=2.4.5",
     "upgrade start bot=2.4.5 hub=2.4.4",
     "upgrade start bot=2.4.5 nodes=alpha,beta=rs"]),
  ("upgrade", some "abort", none,
    ["upgrade abort"]),
  ("upgrade", some "forget", none,
    ["upgrade forget"]),
  ("display", some "show", none,
    ["display show"]),
  ("display", some "view",
    some ["1-5\t1 console, 2 log, 3 network, 4 upgrades, 5 stats (Alt+1..5)"],
    ["display view 2"]),
  ("display", some "pane", none,
    ["display pane"]),
  ("display", some "ascii", none,
    ["display ascii"]),
  ("display", some "format",
    some ["pretty|raw\tpretty lays replies out; raw shows the records as the hub sent them"],
    ["display format raw",
     "display format pretty"]),
  ("display", some "width",
    some ["60-250|auto\tthe columns to lay output out for; auto follows the terminal"],
    ["display width 100",
     "display width auto"]),
  ("display", some "events",
    some ["on|off\ta line for each hub, bot and upgrade change"],
    ["display events on"]),
  ("display", some "clear", none,
    ["display clear"])]

/-- A setting: its name, its built-in value, what it does, and whether it is one of the bots'. -/
def setInfo : List (String × String × String × Bool) := [
  ("enforcemodes", "off", "put back any change away from the stored modes", false),
  ("bitch", "off", "only authorised users and bots may hold ops", false),
  ("protectops", "on", "re-op an authorised member someone deopped; lift bans on one", false),
  ("revenge", "off", "deop whoever deops, kicks or bans an authorised member; again: kick + ban",
  false), ("stopnethack", "off", "take back ops a netsplit rejoin gave to unauthorised members",
  false), ("enforcebans", "off", "kick the unauthorised members a new ban matches", false),
  ("dynamicbans", "on", "set a listed ban only while someone it matches is in the channel",
  false), ("dontkickops", "on", "ops are never acted on for chan, ctcp, join and nick floods",
  false), ("cycle", "on", "a bot alone in a channel with no ops parts and rejoins for ops",
  false), ("dynamiclimit", "off", "keep +l at the member count plus limitgap", false),
  ("bantime", "120 min", "how long an automatic ban (flood, revenge) lasts; 0 = permanent",
  false), ("bantype", "2", "ban mask shape 0-9: 2 = *!*@host, 4 = *!*@*.host, 7 = nick!*@host",
  false), ("banidle", "60 min", "dynamicbans: a listed ban with no match this long is lifted",
  false), ("limitgap", "5", "dynamiclimit: free places above the member count", false),
  ("limitdelay", "60 s", "dynamiclimit: time between limit changes", false),
  ("flood chan", "15:60", "messages to the channel per host: kick, again: ban", false),
  ("flood ctcp", "3:60", "CTCPs to the channel per host: kick, again: ban", false),
  ("flood join", "5:60", "joins per host (join/part cycling): ban + kick", false),
  ("flood nick", "5:60", "nick changes per host: kick, again: ban", false),
  ("flood deop", "3:10", "deops by an unauthorised op: deop them, re-op the victims", false),
  ("flood kick", "3:10", "kicks by an unauthorised op: deop them, again: kick + ban", false),
  ("flood ban", "3:10", "bans by an unauthorised op: deop them, lift bans on authorised", false),
  ("flood cmd", "10:30", "commands per user: extras dropped; 3x the rate ignores the user", true),
  ("flood msg", "5:60", "other messages to a bot per host: the host is ignored", true),
  ("flood ctcp", "3:60", "CTCPs to a bot per host: the host is ignored", true),
  ("ignoretime", "10 min", "how long a flooding host or user stays ignored", true),
  ("sendq", "10:100", "a bot's IRC output: B lines at once, then one every I ms", true)]

end IrcHub.Console
