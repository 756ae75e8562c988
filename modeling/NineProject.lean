import NineProject.Base.Bytes
import NineProject.Base.Frames
import NineProject.Base.Places
import NineProject.Base.Decimal
import NineProject.Base.Effect
import NineProject.Base.Runs
import NineProject.Base.Sharing
import NineProject.Base.Simulation
import NineProject.Sql.Lexer
import NineProject.Sql.Statement
import NineProject.Sql.Store
import NineProject.Sql.Connection
import NineProject.Sql.Growth
import NineProject.Hqery
import NineProject.SqlText
import NineProject.Comparisons
import NineProject.Fault
import NineProject.Packets
import NineProject.Param
import NineProject.Slots
import NineProject.PBuffer
import NineProject.Capacity
import NineProject.Reservations
import NineProject.Nof
import NineProject.Query
import NineProject.Sql.Memory
import NineProject.Insertions
import NineProject.Extensions
import NineProject.Readers
import NineProject.AllOrNothing
import NineProject.Membership
import NineProject.Sql.Shared
import NineProject.TableKeys
import NineProject.Password
import NineProject.Fidelity
import NineProject.Completeness
import NineProject.Session.State
import NineProject.Session.Handlers
import NineProject.Session.Machine
import NineProject.Session.Rules
import NineProject.Session.Queue
import NineProject.Session.Returns
import NineProject.Session.Pool
import NineProject.Session.Server
import NineProject.Session.Wire
import NineProject.Session.Internal
import NineProject.Session.Moves
import NineProject.Session.Steps
import NineProject.Session.System
import NineProject.Logins
import NineProject.Notices
import NineProject.Reuse
import NineProject.Discipline
import NineProject.Gate
import NineProject.Lengths
import NineProject.FailedRead
import NineProject.FailedHeader
import NineProject.Delivery
import NineProject.Dispatch
import NineProject.Cursors
import NineProject.Backing
import NineProject.Replies
import NineProject.InviteReply
import NineProject.ConcReply
import NineProject.FriendList
import NineProject.LoginPackets
import NineProject.InviteTarget
import NineProject.Handoff
import NineProject.Framing
import NineProject.Service
import NineProject.Serving
import NineProject.Statements
import NineProject.OwnClient
import NineProject.Accounts
import NineProject.Disclosure
import NineProject.Snapshots
import NineProject.Provenance
import NineProject.Mail
import NineProject.Isolation
import NineProject.Linear
import NineProject.Pace
import NineProject.Genuine
