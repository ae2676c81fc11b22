import Hammertime.Addressing
import Hammertime.Lib.IntIndex
import Hammertime.Trie.Arena
import Hammertime.Trie.Patricia
import Hammertime.Lib.CompressedTree
import Hammertime.Trie.Layout
import Hammertime.Trie.Update
import Hammertime.Trie.HotSet
import Hammertime.Trie.Queries
import Hammertime.Trie.Binary
import Hammertime.Trie.BinarySpec
import Hammertime.Trie.Agreement
import Hammertime.Trie.Invariants
import Hammertime.Aggregator.Counter
import Hammertime.Lib.Dict
import Hammertime.Lib.Program
import Hammertime.Aggregator.Window
import Hammertime.Events
import Hammertime.Environment
import Hammertime.Aggregator.Emitter
import Hammertime.Aggregator.Worker
import Hammertime.Aggregator.WindowSpec
import Hammertime.Aggregator.EmitterSpec
import Hammertime.Aggregator.Frame
import Hammertime.Aggregator.Runs
import Hammertime.Aggregator.Claim
import Hammertime.Aggregator.Promotion
import Hammertime.Aggregator.Consistency
import Hammertime.Aggregator.Hysteresis
import Hammertime.Aggregator.Warmup
import Hammertime.Aggregator.Ring
import Hammertime.Aggregator.Rebuild
import Hammertime.Aggregator.WindowRuns
import Hammertime.Aggregator.Expiry
import Hammertime.Aggregator.Eviction
import Hammertime.Aggregator.Losses
import Hammertime.Aggregator.Delivery
import Hammertime.Aggregator.Ownership
import Hammertime.Store.Dedup
import Hammertime.Store.Retention
import Hammertime.Attributes
import Hammertime.Attributes.Exactness
import Hammertime.Trie.AttributeRecords
import Hammertime.Attributes.Document
import Hammertime.Codec
import Hammertime.Codec.Fields
import Hammertime.Codec.RoundTrip
import Hammertime.Codec.Interpreter
import Hammertime.Codec.Stability
import Hammertime.Codec.Wire
import Hammertime.Ingest.Dedup
import Hammertime.Lib.Machine
import Hammertime.Store.RedisDedup
import Hammertime.Config.Poller
import Hammertime.Store.RedisShard
import Hammertime.Config.Loader
import Hammertime.Ingest.Auth
import Hammertime.Lib.Hex
import Hammertime.Ingest.Agents
import Hammertime.Tools.AgentToken
import Hammertime.Ingest.Publisher
import Hammertime.Aggregator.Leases
import Hammertime.Ingest.Retry
import Hammertime.Bus.Memory
import Hammertime.Bus.DurableLog
import Hammertime.Store.Membership
import Hammertime.Ingest.Throttling
import Hammertime.Lib.PartialMonoid
import Hammertime.Trie.Metadata.Combine
import Hammertime.Trie.Metadata.Local
import Hammertime.Trie.Pruning
import Hammertime.Trie.Economy
import Hammertime.Trie.Canonical
import Hammertime.Trie.Soundness
import Hammertime.Trie.Messages
import Hammertime.Ingest.Completeness
import Hammertime.Bus.Nats
import Hammertime.Aggregator.Acknowledgement
import Hammertime.Aggregator.ConfigChange
import Hammertime.Aggregator.ExactlyOnce
import Hammertime.Aggregator.WindowTotals
import Hammertime.Ingest.SourceKey
import Hammertime.Tools.Rotation
import Hammertime.Trie.PathCounts
import Hammertime.Codec.Identity
import Hammertime.Lib.Rounding
import Hammertime.Attributes.Weight
import Hammertime.Lib.Resume
import Hammertime.Lib.Narrowing
import Hammertime.Trie.Publisher
import Hammertime.Trie.Worker
import Hammertime.Trie.Replay
import Hammertime.Trie.Process
import Hammertime.Trie.StatsLog
import Hammertime.Trie.Recovery
import Hammertime.Trie.LastCounts
import Hammertime.Trie.Preparation
import Hammertime.Trie.CatchUp
import Hammertime.Bus.Topics
import Hammertime.Aggregator.Provenance
import Hammertime.Aggregator.Tenure
import Hammertime.Aggregator.Fleet
import Hammertime.Trie.Intake
import Hammertime.Pipeline
import Hammertime.Bus.NatsDelivery
