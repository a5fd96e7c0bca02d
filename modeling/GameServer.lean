import GameServer.Lib.UnorderedMap
import GameServer.Lib.Run
import GameServer.Lib.Fifo
import GameServer.Lib.Reactor
import GameServer.Lib.Bisect
import GameServer.Lib.ByteStream
import GameServer.Lib.Scalar
import GameServer.Lib.ExactRoot
import GameServer.Lib.Segment
import GameServer.Lib.RateLimit
import GameServer.Lib.Wire
import GameServer.Timer.TimerWheel
import GameServer.Timer.Representation
import GameServer.Timer.Pending
import GameServer.Timer.Firing
import GameServer.Timer.Moves
import GameServer.Timer.Storage
import GameServer.Timer.Clock
import GameServer.Timer.LongTimers
import GameServer.Timer.PeriodicTimer
import GameServer.Net.EventLoop
import GameServer.Net.EventLoopThread
import GameServer.Net.Buffer
import GameServer.Net.ByteQueue
import GameServer.Net.TcpConnection
import GameServer.Net.EPollPoller
import GameServer.Net.Output
import GameServer.Net.GracefulShutdown
import GameServer.Net.Lifecycle
import GameServer.Net.Delivery
import GameServer.Net.Streaming
import GameServer.Net.Acceptor
import GameServer.Net.TcpServer
import GameServer.Net.Ownership
import GameServer.Net.Connections
import GameServer.Proto.ProtobufCodec
import GameServer.Proto.UntrustedStream
import GameServer.Proto.Messages
import GameServer.Proto.Serialize
import GameServer.Proto.Dispatcher
import GameServer.Storage.AsyncWriter
import GameServer.Game.BattleSim
import GameServer.Game.BattleStep
import GameServer.Game.Arena
import GameServer.Game.Volley
import GameServer.Game.Damage
import GameServer.Game.Tombstones
import GameServer.Game.RateOfFire
import GameServer.Game.Collision
import GameServer.Game.Movement
import GameServer.Game.Room
import GameServer.Game.Duel
import GameServer.Game.MapOrder
import GameServer.Game.MatchQueue
import GameServer.Game.MatchOrder
import GameServer.Game.Lobby
import GameServer.Game.LobbyRoom
import GameServer.Game.LobbyTables
import GameServer.Game.LobbyMoves
import GameServer.Game.LobbyBase
import GameServer.Game.LobbyStep
import GameServer.Game.LobbyViews
import GameServer.Game.LobbyConsistency
import GameServer.Game.Seating
import GameServer.Game.Settlement
import GameServer.Game.Recording
import GameServer.Game.MatchTimers
import GameServer.Game.Retention
import GameServer.Game.Presence
import GameServer.Game.Slots
import GameServer.Game.FrameSize
import GameServer.Game.ShotsInFlight
import GameServer.Game.Outgoing
import GameServer.Game.Online
import GameServer.Game.Leaderboard
import GameServer.Game.ServerShutdown
import GameServer.Game.Heartbeats
import GameServer.Game.RoomOwnership
import GameServer.Client.FrameParser
import GameServer.Client.NetworkClient
import GameServer.Client.SnapshotInterpolator
import GameServer.Client.Sampling
import GameServer.Client.Freshness
import GameServer.Client.Replica
import GameServer.Client.Acknowledgement
import GameServer.Client.Interpolation
import GameServer.Client.History
import GameServer.Client.Binding
import GameServer.Client.GameSession
import GameServer.Client.GameClient
import GameServer.Client.Keepalive
import GameServer.Client.Downlink
import GameServer.Client.Uplink
import GameServer.Client.Engagement
import GameServer.Client.Agreement
import GameServer.Client.Authority
import GameServer.Client.Expectation
import GameServer.Client.Matchmaking
import GameServer.Client.Reception
