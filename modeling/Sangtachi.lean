import Sangtachi.Control.Refusals
import Sangtachi.Control.Expiry
import Sangtachi.Control.Readiness
import Sangtachi.Peer.Redirect
import Sangtachi.Peer.SendBudget
import Sangtachi.Peer.Renegotiation
import Sangtachi.Peer.Delivery
import Sangtachi.Peer.Drops
import Sangtachi.Tunnel.Routing
import Sangtachi.Tunnel.Retirement
import Sangtachi.Tunnel.Accounting
import Sangtachi.Lobby.Waiting
import Sangtachi.Tunnel.Positions
import Sangtachi.Tunnel.Deadlines
import Sangtachi.Tunnel.Admission
import Sangtachi.Tunnel.RosterEditions
import Sangtachi.Control.RateLimit
import Sangtachi.Tunnel.RosterBytes
import Sangtachi.ControlClient.JsonRoundTrip
import Sangtachi.Peer.Books
import Sangtachi.Peer.Loss
import Sangtachi.Network.Stun
import Sangtachi.Network.StunParser
import Sangtachi.Core.Lines
import Sangtachi.ControlClient.Http
import Sangtachi.ControlClient.Exchange
import Sangtachi.ControlClient.Framing
import Sangtachi.Control.RequestParser
import Sangtachi.Control.RequestGrammar
import Sangtachi.Core.Decimal
import Sangtachi.Network.EndpointText
import Sangtachi.Core.FirstOccurrences
import Sangtachi.ControlClient.Hygiene
import Sangtachi.Tunnel.DataSender
import Sangtachi.Core.BoundedFifo
import Sangtachi.Client.SpscRing
import Sangtachi.Client.TimerSet
import Sangtachi.Peer.Candidates
import Sangtachi.Core.EagerBucket
import Sangtachi.Control.ExactRate
import Sangtachi.Control.Leases
import Sangtachi.Peer.RoundTrips
import Sangtachi.ControlClient.Responses
import Sangtachi.Network.StunStage
import Sangtachi.Network.StunRuns
import Sangtachi.Network.StunDeadlines
import Sangtachi.Tunnel.AttemptNonces
import Sangtachi.Lobby.Submissions
import Sangtachi.Lobby.Queries
import Sangtachi.ControlClient.Requests
import Sangtachi.Runner.Runner
import Sangtachi.Runner.Names
import Sangtachi.Runner.Query
import Sangtachi.Runner.InStep
import Sangtachi.Lobby.Moves
import Sangtachi.Lobby.Accounts
import Sangtachi.Lobby.Openings
import Sangtachi.Runner.Records
