import EkEk.Lib.Records
import EkEk.Lib.ByteOrder
import EkEk.Lib.Segments
import EkEk.Lib.Latch
import EkEk.Lib.Acting
import EkEk.Lib.Assoc
import EkEk.Lib.Base64
import EkEk.Lib.Checked
import EkEk.Lib.Clockwise
import EkEk.Lib.Crash
import EkEk.Lib.Cursor
import EkEk.Lib.Gregorian
import EkEk.Lib.Keyed
import EkEk.Lib.Lines
import EkEk.Lib.OnesComplement
import EkEk.Lib.Overflow
import EkEk.Lib.Pacing
import EkEk.Lib.PrefixFree
import EkEk.Lib.Probing
import EkEk.Lib.Runs
import EkEk.Lib.ReadModifyWrite
import EkEk.Lib.Retained
import EkEk.Lib.Searching
import EkEk.Lib.Sha256
import EkEk.Lib.Sorting
import EkEk.Lib.Streaks
import EkEk.Net
import EkEk.Text
import EkEk.Utf8
import EkEk.Serde
import EkEk.Config.Config
import EkEk.Config.Validation
import EkEk.Config.Accepted
import EkEk.Config.Matrix
import EkEk.Config.Template
import EkEk.Config.Acme
import EkEk.Config.Warnings
import EkEk.Config.Moves
import EkEk.Config.Removal
import EkEk.Config.Expiring
import EkEk.Config.I18n
import EkEk.Config.Saved
import EkEk.Addresses
import EkEk.Config.Rendered
import EkEk.Json
import EkEk.JsonText
import EkEk.JsonWrite
import EkEk.Log.Mask
import EkEk.Log.Scan
import EkEk.Log.Frame
import EkEk.Log.Header
import EkEk.Log.Hidden
import EkEk.Log.Shown
import EkEk.Log.Logger
import EkEk.Store.Snapshot
import EkEk.Store.Sqlite
import EkEk.Store.Journal
import EkEk.Store.Database
import EkEk.Store.Refinement
import EkEk.Store.Rollback
import EkEk.Store.History
import EkEk.Store.Migration
import EkEk.Store.Diff
import EkEk.Store.Differences
import EkEk.Tls.Record
import EkEk.Tls.Renewal
import EkEk.Tls.Failure
import EkEk.Tls.Order
import EkEk.Tls.Jws
import EkEk.Tls.Acme
import EkEk.Tls.Closing
import EkEk.Tls.Ending
import EkEk.Tls.Challenges
import EkEk.Tls.Payloads
import EkEk.Tls.Wire
import EkEk.Tls.Answers
import EkEk.Tls.Tsig
import EkEk.Tls.Update
import EkEk.Tls.Cloudflare
import EkEk.Tls.Publishing
import EkEk.Peer.Authority
import EkEk.Peer.Wire
import EkEk.Peer.Channel
import EkEk.Program.Edits
import EkEk.Program.Ordering
import EkEk.Program.Exits
import EkEk.Program.TakeOver
import EkEk.Program.Withdrawn
import EkEk.Program.Material
import EkEk.Raft.Token
import EkEk.Raft.Join
import EkEk.Program.Writers
import EkEk.Raft.Types
import EkEk.Raft.Cluster
import EkEk.Program.Effects
import EkEk.Program.Valid
import EkEk.Program.Sequence
import EkEk.Program.Referenced
import EkEk.Program.Sweep
import EkEk.Program.Warned
import EkEk.Raft.Refusals
import EkEk.Raft.Removal
import EkEk.Raft.Identity
import EkEk.Raft.Spent
import EkEk.Raft.SingleUse
import EkEk.Raft.Voters
import EkEk.Raft.LogStore
import EkEk.Raft.Machine
import EkEk.Raft.Building
import EkEk.Raft.Converge
import EkEk.Raft.Wire
import EkEk.Store.Log
import EkEk.Store.Restart
import EkEk.Raft.Disk
import EkEk.Raft.AtRest
import EkEk.Vrrp.Packet
import EkEk.Vrrp.Integrity
import EkEk.Vrrp.State
import EkEk.Vrrp.Gateway
import EkEk.Agent.Supervise
import EkEk.Agent.Signals
import EkEk.Vrrp.Events
import EkEk.Agent.Run
import EkEk.Vrrp.Carrier
import EkEk.Vrrp.Router
import EkEk.Vrrp.Ping
import EkEk.Vrrp.Netlink
import EkEk.Vrrp.Dropping
import EkEk.Vrrp.Claim
import EkEk.Vrrp.Election
import EkEk.Vrrp.Holding
import EkEk.Dataplane.ClientHello
import EkEk.Dataplane.Opening
import EkEk.Dataplane.Probe
import EkEk.Dataplane.DnsProbe
import EkEk.Dataplane.Certs
import EkEk.Dataplane.Listeners
import EkEk.Dataplane.Listening
import EkEk.Dataplane.Health
import EkEk.Dataplane.Rotation
import EkEk.Dataplane.HashRing
import EkEk.Dataplane.Balance
import EkEk.Dataplane.Shares
import EkEk.Dataplane.Live
import EkEk.Dataplane.Udp
import EkEk.Dataplane.Ledger
import EkEk.Dataplane.UdpProxy
import EkEk.Dataplane.Route
import EkEk.Dataplane.Paths
import EkEk.Dataplane.Unreachable
import EkEk.Dataplane.Sticky
import EkEk.Dataplane.Cookies
import EkEk.Dataplane.Gates
import EkEk.Dataplane.Proxy
import EkEk.Dataplane.ProxyProto
import EkEk.Dataplane.StreamProxy
import EkEk.Dataplane.Hosts
import EkEk.Program.Renew
import EkEk.Agent.Link
import EkEk.Agent.Framing
