import MiniKafka.Cluster.HeartbeatAuthenticity
import MiniKafka.Cluster.AssignmentBroadcast
import MiniKafka.Cluster.TopicCreation
import MiniKafka.Cluster.Failover
import MiniKafka.Cluster.TopicPlacement
import MiniKafka.Cluster.DeposedController
import MiniKafka.Cluster.RaftStateFile
import MiniKafka.Cluster.AssignmentRestart
import MiniKafka.Replication.HighWatermark
import MiniKafka.Replication.WatermarkMonotone
import MiniKafka.Replication.FollowerFetcher
import MiniKafka.Broker.Durability
import MiniKafka.Storage.CrashRecovery
import MiniKafka.Storage.PartitionRefinement
import MiniKafka.Storage.Draining
import MiniKafka.Storage.RecoveryScan
import MiniKafka.Storage.FailedWrite
import MiniKafka.Storage.RecordGrammar
import MiniKafka.Storage.SparseIndex
import MiniKafka.Broker.SingleLeadership
import MiniKafka.Broker.StateFiles
import MiniKafka.Broker.DeadlockFreedom
import MiniKafka.Broker.PartitionDirectories
import MiniKafka.Broker.ServedPartitions
import MiniKafka.Broker.ExpiredContacts
import MiniKafka.Broker.JoinAnswers
import MiniKafka.Broker.FetchOffsets
import MiniKafka.Net.FrameStream
import MiniKafka.Protocol.RoundTrip
import MiniKafka.Group.Generations
import MiniKafka.Group.StableMembership
import MiniKafka.Group.ExclusiveAssignment
import MiniKafka.Group.MemberIdentity
import MiniKafka.Group.ForwardCommits
import MiniKafka.Group.OffsetStore
import MiniKafka.Net.Session
import MiniKafka.Broker.Dispatch
import MiniKafka.Broker.Standalone
import MiniKafka.Broker.StandaloneLogs
import MiniKafka.Broker.TopicCounts
import MiniKafka.Broker.Peers
import MiniKafka.Broker.CatchUp
import MiniKafka.Broker.Coordinators
import MiniKafka.Broker.OffsetCalls
import MiniKafka.Cluster.PeerCalls
import MiniKafka.Client.Partitioner
import MiniKafka.Client.Consumer
import MiniKafka.Client.GroupConsumer
import MiniKafka.Client.Producer
import MiniKafka.Client.ProducedRecords
import MiniKafka.Client.TopicPartitions
import MiniKafka.Client.TopicAdmin
