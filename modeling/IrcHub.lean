import IrcHub.Proofs.Global.Exact
import IrcHub.Proofs.Flood
import IrcHub.Proofs.Leader
import IrcHub.Proofs.Delete.Runs
import IrcHub.Proofs.Users.Refused
import IrcHub.Proofs.Convergence.Records
import IrcHub.Proofs.Convergence.Users
import IrcHub.Proofs.Convergence.Bots.Orders
import IrcHub.Proofs.Convergence.Access
import IrcHub.Proofs.Convergence.Revoked
import IrcHub.Proofs.Global.Frame
import IrcHub.Proofs.Bots.Revoked
import IrcHub.Proofs.Bots.Auth
import IrcHub.Proofs.Sync.Packet
import IrcHub.Proofs.Restart.MeshSeq
import IrcHub.Proofs.Restart.ConnLimits
import IrcHub.Proofs.Link.Sequence
import IrcHub.Proofs.Upgrade.Commits
import IrcHub.Proofs.Upgrade.Prepare
import IrcHub.Proofs.RateLimit
import IrcHub.Proofs.OpFlow.Runs
import IrcHub.Proofs.Console.Replies
import IrcHub.Proofs.Writes.Runs
import IrcHub.Proofs.Purge.Narrows
import IrcHub.Proofs.Floor.Whole
import IrcHub.Proofs.Bots.Guards
import IrcHub.Hub.Dedup
import IrcHub.Lib.Move
import IrcHub.Proofs.Dedup.Remap
import IrcHub.Proofs.Dedup.Masks
import IrcHub.Proofs.Dedup.Whole
import IrcHub.Hub.Presence
import IrcHub.Proofs.Bans.Edits
import IrcHub.Proofs.Bans.Net
import IrcHub.Proofs.Presence.Once
import IrcHub.Hub.PeerLink
import IrcHub.Lib.Apart
import IrcHub.Lib.Keyed
import IrcHub.Proofs.PeerLink.Agree
import IrcHub.Proofs.Users.Tables
import IrcHub.Proofs.Users.Unique
import IrcHub.Hub.Login
import IrcHub.Hub.Update
import IrcHub.Lib.Glob
import IrcHub.Lib.Ladder
import IrcHub.Lib.Natural
import IrcHub.Lib.Terminal
import IrcHub.Proofs.Bans.BotWrite
import IrcHub.Proofs.Login
import IrcHub.Proofs.Update.Path
import IrcHub.Proofs.Update.Url
import IrcHub.Ui.Reply
import IrcHub.Ui.Tables
import IrcHub.Ui.Build
import IrcHub.Hub.Checked
import IrcHub.Hub.ParseUint
import IrcHub.Hub.Queue
import IrcHub.Hub.Settings
import IrcHub.Lib.Fifo
import IrcHub.Proofs.Bots.PushChannel
import IrcHub.Proofs.ParseUint
import IrcHub.Proofs.Queue
import IrcHub.Proofs.Settings
import IrcHub.Ui.Events
import IrcHub.Ui.Keys
import IrcHub.Hub.Pump
import IrcHub.Proofs.Pump
import IrcHub.Hub.LogRing
import IrcHub.Lib.Ring
import IrcHub.Proofs.LogRing
import IrcHub.Hub.IpAcl
import IrcHub.Hub.Logging
import IrcHub.Hub.SshTable
import IrcHub.Hub.Strtoll
import IrcHub.Proofs.Bindings.Torn
import IrcHub.Proofs.IpAcl
import IrcHub.Proofs.Logging
import IrcHub.Proofs.SshTable
import IrcHub.Proofs.SshTable.Plain
import IrcHub.Proofs.Strtoll
import IrcHub.Proofs.Ui.Cuts
import IrcHub.Proofs.Ui.Wrap
import IrcHub.Proofs.Ui.Held
import IrcHub.Proofs.Ui.Paste
import IrcHub.Proofs.Ui.Prompt
import IrcHub.Proofs.Ui.Typed
import IrcHub.Proofs.Ui.Waiting
import IrcHub.Proofs.Reply.Whole
import IrcHub.Proofs.AclFile
import IrcHub.Proofs.Presence.Expire
