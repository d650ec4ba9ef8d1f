import ApiCerberus.Admin.BulkDelete
import ApiCerberus.Admin.ConfigUpdates
import ApiCerberus.Admin.OidcProvider
import ApiCerberus.Admin.Session
import ApiCerberus.Admin.WsHub
import ApiCerberus.Analytics.RingBuffer
import ApiCerberus.Analytics.TimeSeries
import ApiCerberus.Audit.Masker
import ApiCerberus.Audit.Retention
import ApiCerberus.Billing.Credits
import ApiCerberus.Billing.Edits
import ApiCerberus.Billing.Ledger
import ApiCerberus.Consensus.Election
import ApiCerberus.Consensus.Facts
import ApiCerberus.Consensus.LogMoves
import ApiCerberus.Consensus.Moves
import ApiCerberus.Consensus.Replication
import ApiCerberus.Federation.Executor
import ApiCerberus.Federation.Parallel
import ApiCerberus.Gateway.Attempts
import ApiCerberus.Gateway.AuditHandover
import ApiCerberus.Gateway.Balancers
import ApiCerberus.Gateway.Breaker
import ApiCerberus.Gateway.ClientIP
import ApiCerberus.Gateway.Delivery
import ApiCerberus.Gateway.HashRing
import ApiCerberus.Gateway.Lookup
import ApiCerberus.Gateway.Mediation
import ApiCerberus.Gateway.OwnPlugins
import ApiCerberus.Gateway.Path
import ApiCerberus.Gateway.Permission
import ApiCerberus.Gateway.Pipelines
import ApiCerberus.Gateway.Probes
import ApiCerberus.Gateway.Proxy
import ApiCerberus.Gateway.Radix
import ApiCerberus.Gateway.RoundRobin
import ApiCerberus.Gateway.RouteOrder
import ApiCerberus.Gateway.Router
import ApiCerberus.Gateway.Serve
import ApiCerberus.Gateway.Strip
import ApiCerberus.Gateway.Targets
import ApiCerberus.GraphQL.Analyzer
import ApiCerberus.GraphQL.Apq
import ApiCerberus.GraphQL.Expansion
import ApiCerberus.GraphQL.FrameCodec
import ApiCerberus.GraphQL.Guard
import ApiCerberus.GraphQL.JsonDepth
import ApiCerberus.GraphQL.Parser
import ApiCerberus.GraphQL.Printer
import ApiCerberus.GraphQL.Relay
import ApiCerberus.GraphQL.Writing
import ApiCerberus.Lib.Base64
import ApiCerberus.Lib.Codec
import ApiCerberus.Lib.Float64
import ApiCerberus.Lib.Header
import ApiCerberus.Lib.Ip
import ApiCerberus.Lib.Json
import ApiCerberus.Lib.JsonTree
import ApiCerberus.Lib.Keyed
import ApiCerberus.Lib.LinkedList
import ApiCerberus.Lib.Parsing
import ApiCerberus.Lib.Rfc3339
import ApiCerberus.Lib.Sorting
import ApiCerberus.Lib.Table
import ApiCerberus.Lib.Text
import ApiCerberus.Lib.Transition
import ApiCerberus.Lib.WebSocket
import ApiCerberus.Logging.Rotate
import ApiCerberus.Plugin.Backoff
import ApiCerberus.Plugin.Cache
import ApiCerberus.Plugin.CacheHits
import ApiCerberus.Plugin.CacheKeys
import ApiCerberus.Plugin.CacheLimits
import ApiCerberus.Plugin.CacheLock
import ApiCerberus.Plugin.ClaimHeaders
import ApiCerberus.Plugin.JtiReplay
import ApiCerberus.Plugin.Jwt
import ApiCerberus.Raft.Ballots
import ApiCerberus.Raft.Batches
import ApiCerberus.Raft.Carriers
import ApiCerberus.Raft.Cluster
import ApiCerberus.Raft.Contiguity
import ApiCerberus.Raft.Durability
import ApiCerberus.Raft.Election
import ApiCerberus.Raft.Indices
import ApiCerberus.Raft.Install
import ApiCerberus.Raft.Instances
import ApiCerberus.Raft.Labels
import ApiCerberus.Raft.LeaderLog
import ApiCerberus.Raft.Local
import ApiCerberus.Raft.Log
import ApiCerberus.Raft.LogAppend
import ApiCerberus.Raft.LogApply
import ApiCerberus.Raft.LogLead
import ApiCerberus.Raft.LogVotes
import ApiCerberus.Raft.Logs
import ApiCerberus.Raft.Machine
import ApiCerberus.Raft.Node
import ApiCerberus.Raft.Proposals
import ApiCerberus.Raft.Replay
import ApiCerberus.Raft.Resume
import ApiCerberus.Raft.Safety
import ApiCerberus.Raft.Simulation
import ApiCerberus.Raft.Snapshots
import ApiCerberus.Raft.Terms
import ApiCerberus.Raft.Types
import ApiCerberus.Raft.Votes
import ApiCerberus.Raft.Window
import ApiCerberus.RateLimit.Concurrency
import ApiCerberus.RateLimit.Leaky
import ApiCerberus.RateLimit.Limiters
import ApiCerberus.RateLimit.Purge
import ApiCerberus.RateLimit.RedisBucket
import ApiCerberus.RateLimit.RedisWindow
import ApiCerberus.RateLimit.Sliding
import ApiCerberus.Store.Migrations
