import MiniKafka.Cluster.Assignments
import MiniKafka.Cluster.ElectionState
import MiniKafka.Group.CommittedOffsets
import MiniKafka.Group.Coordinator
import MiniKafka.Storage.Record

/-!
# The payloads of requests and responses

The encoders and decoders of `requests.cpp`, field by field in the order of the source. An
encoder is the bytes it appends. The requests that the coordinator and the controller work
on have their types there.
-/

namespace MiniKafka.Protocol

open Cluster Common Storage
open MiniKafka.Group (GroupId MemberId JoinGroupRequest SyncGroupAssignment SyncGroupRequest
  CommitOffsetRequest)

/-- `enum class ErrorCode : int16_t`; a code without a name can be received. -/
structure ErrorCode where
  value : Int16
  deriving DecidableEq, Repr

namespace ErrorCode

def none : ErrorCode := ⟨0⟩

def unknownTopic : ErrorCode := ⟨3⟩

def notLeaderForPartition : ErrorCode := ⟨6⟩

def requestTimedOut : ErrorCode := ⟨7⟩

def unknownMemberId : ErrorCode := ⟨25⟩

def rebalanceInProgress : ErrorCode := ⟨27⟩

def unknownRequestType : ErrorCode := ⟨99⟩

end ErrorCode

def errI16 (e : ErrorCode) : Int16 := e.value

def errFromI16 (v : Int16) : ErrorCode := ⟨v⟩

def putErrorCode (e : ErrorCode) : Bytes := putI16 (errI16 e)

def getErrorCode : Decode ErrorCode := do
  let v ← getI16
  return errFromI16 v

def putBool (b : Bool) : Bytes := putU8 (if b then 1 else 0)

def getBool : Decode Bool := do
  let v ← getU8
  return v != 0

section Produce

structure ProduceRequest where
  topic : Topic
  partitionId : UInt32 := 0
  acks : UInt8 := 1
  records : List Record
  deriving DecidableEq, Repr

def encodeProduceRequest (req : ProduceRequest) : Bytes :=
  putString req.topic ++ (putU32 req.partitionId ++ (putU8 req.acks ++
    putCounted encodeRecord req.records))

def decodeProduceRequest : Decode ProduceRequest := do
  let topic ← getString
  let partitionId ← getU32
  let acks ← getU8
  let records ← getCounted decodeRecord
  return { topic, partitionId, acks, records }

structure ProduceResponse where
  errorCode : ErrorCode := .none
  baseOffset : UInt64 := 0
  leaderHost : Bytes
  leaderPort : UInt32 := 0
  deriving DecidableEq, Repr

def encodeProduceResponse (resp : ProduceResponse) : Bytes :=
  putErrorCode resp.errorCode ++ (putU64 resp.baseOffset ++ (putString resp.leaderHost ++
    putU32 resp.leaderPort))

def decodeProduceResponse : Decode ProduceResponse := do
  let errorCode ← getErrorCode
  let baseOffset ← getU64
  let leaderHost ← getString
  let leaderPort ← getU32
  return { errorCode, baseOffset, leaderHost, leaderPort }

end Produce

section Fetch

structure FetchRequest where
  topic : Topic
  partitionId : UInt32 := 0
  fetchOffset : UInt64 := 0
  maxBytes : UInt32 := 0
  deriving DecidableEq, Repr

def encodeFetchRequest (req : FetchRequest) : Bytes :=
  putString req.topic ++ (putU32 req.partitionId ++ (putU64 req.fetchOffset ++
    putU32 req.maxBytes))

def decodeFetchRequest : Decode FetchRequest := do
  let topic ← getString
  let partitionId ← getU32
  let fetchOffset ← getU64
  let maxBytes ← getU32
  return { topic, partitionId, fetchOffset, maxBytes }

structure FetchResponse where
  errorCode : ErrorCode := .none
  highWatermark : UInt64 := 0
  records : List Record
  leaderHost : Bytes
  leaderPort : UInt32 := 0
  deriving DecidableEq, Repr

/-- The records are the last field on the wire. -/
def encodeFetchResponse (resp : FetchResponse) : Bytes :=
  putErrorCode resp.errorCode ++ (putU64 resp.highWatermark ++ (putString resp.leaderHost ++
    (putU32 resp.leaderPort ++ putCounted encodeRecord resp.records)))

def decodeFetchResponse : Decode FetchResponse := do
  let errorCode ← getErrorCode
  let highWatermark ← getU64
  let leaderHost ← getString
  let leaderPort ← getU32
  let records ← getCounted decodeRecord
  return { errorCode, highWatermark, leaderHost, leaderPort, records }

structure ReplicaFetchRequest where
  topic : Topic
  partitionId : UInt32 := 0
  replicaId : BrokerId := 0
  fetchOffset : UInt64 := 0
  maxBytes : UInt32 := 0
  deriving DecidableEq, Repr

def encodeReplicaFetchRequest (req : ReplicaFetchRequest) : Bytes :=
  putString req.topic ++ (putU32 req.partitionId ++ (putU32 req.replicaId ++
    (putU64 req.fetchOffset ++ putU32 req.maxBytes)))

def decodeReplicaFetchRequest : Decode ReplicaFetchRequest := do
  let topic ← getString
  let partitionId ← getU32
  let replicaId ← getU32
  let fetchOffset ← getU64
  let maxBytes ← getU32
  return { topic, partitionId, replicaId, fetchOffset, maxBytes }

end Fetch

section Metadata

structure MetadataRequest where
  topic : Topic
  deriving DecidableEq, Repr

def encodeMetadataRequest (req : MetadataRequest) : Bytes := putString req.topic

def decodeMetadataRequest : Decode MetadataRequest := do
  let topic ← getString
  return { topic }

structure PartitionMetadata where
  partitionId : UInt32 := 0
  leaderId : BrokerId := 0
  leaderHost : Bytes
  leaderPort : UInt32 := 0
  deriving DecidableEq, Repr

def encodePartitionMetadata (p : PartitionMetadata) : Bytes :=
  putU32 p.partitionId ++ (putU32 p.leaderId ++ (putString p.leaderHost ++
    putU32 p.leaderPort))

def decodePartitionMetadata : Decode PartitionMetadata := do
  let partitionId ← getU32
  let leaderId ← getU32
  let leaderHost ← getString
  let leaderPort ← getU32
  return { partitionId, leaderId, leaderHost, leaderPort }

structure MetadataResponse where
  errorCode : ErrorCode := .none
  partitions : List PartitionMetadata
  deriving DecidableEq, Repr

def encodeMetadataResponse (resp : MetadataResponse) : Bytes :=
  putErrorCode resp.errorCode ++ putCounted encodePartitionMetadata resp.partitions

def decodeMetadataResponse : Decode MetadataResponse := do
  let errorCode ← getErrorCode
  let partitions ← getCounted decodePartitionMetadata
  return { errorCode, partitions }

structure CreateTopicRequest where
  topic : Topic
  numPartitions : UInt32 := 1
  replicationFactor : UInt32 := 1
  deriving DecidableEq, Repr

def encodeCreateTopicRequest (req : CreateTopicRequest) : Bytes :=
  putString req.topic ++ (putU32 req.numPartitions ++ putU32 req.replicationFactor)

def decodeCreateTopicRequest : Decode CreateTopicRequest := do
  let topic ← getString
  let numPartitions ← getU32
  let replicationFactor ← getU32
  return { topic, numPartitions, replicationFactor }

structure CreateTopicResponse where
  errorCode : ErrorCode := .none
  controllerId : BrokerId := 0
  controllerHost : Bytes
  controllerPort : UInt32 := 0
  deriving DecidableEq, Repr

def encodeCreateTopicResponse (resp : CreateTopicResponse) : Bytes :=
  putErrorCode resp.errorCode ++ (putU32 resp.controllerId ++
    (putString resp.controllerHost ++ putU32 resp.controllerPort))

def decodeCreateTopicResponse : Decode CreateTopicResponse := do
  let errorCode ← getErrorCode
  let controllerId ← getU32
  let controllerHost ← getString
  let controllerPort ← getU32
  return { errorCode, controllerId, controllerHost, controllerPort }

end Metadata

/-- The responses that say only how the request went. -/
structure ErrorResponse where
  errorCode : ErrorCode := .none
  deriving DecidableEq, Repr

def encodeErrorResponse (resp : ErrorResponse) : Bytes := putErrorCode resp.errorCode

def decodeErrorResponse : Decode ErrorResponse := do
  let errorCode ← getErrorCode
  return { errorCode }

section ConsumerGroups

structure FindCoordinatorRequest where
  groupId : GroupId
  deriving DecidableEq, Repr

def encodeFindCoordinatorRequest (req : FindCoordinatorRequest) : Bytes :=
  putString req.groupId

def decodeFindCoordinatorRequest : Decode FindCoordinatorRequest := do
  let groupId ← getString
  return { groupId }

structure FindCoordinatorResponse where
  errorCode : ErrorCode := .none
  coordinatorId : BrokerId := 0
  host : Bytes
  port : UInt32 := 0
  deriving DecidableEq, Repr

def encodeFindCoordinatorResponse (resp : FindCoordinatorResponse) : Bytes :=
  putErrorCode resp.errorCode ++ (putU32 resp.coordinatorId ++ (putString resp.host ++
    putU32 resp.port))

def decodeFindCoordinatorResponse : Decode FindCoordinatorResponse := do
  let errorCode ← getErrorCode
  let coordinatorId ← getU32
  let host ← getString
  let port ← getU32
  return { errorCode, coordinatorId, host, port }

def encodeJoinGroupRequest (req : JoinGroupRequest) : Bytes :=
  putString req.groupId ++ (putString req.topic ++ putU32 req.sessionTimeoutMs)

def decodeJoinGroupRequest : Decode JoinGroupRequest := do
  let groupId ← getString
  let topic ← getString
  let sessionTimeoutMs ← getU32
  return { groupId, topic, sessionTimeoutMs }

/-- With the code as it is sent; the coordinator's own type has the codes it answers. -/
structure JoinGroupResponse where
  errorCode : ErrorCode := .none
  generationId : UInt32 := 0
  memberId : MemberId
  leaderId : MemberId
  members : List MemberId
  deriving DecidableEq, Repr

def encodeJoinGroupResponse (resp : JoinGroupResponse) : Bytes :=
  putErrorCode resp.errorCode ++ (putU32 resp.generationId ++ (putString resp.memberId ++
    (putString resp.leaderId ++ putCounted putString resp.members)))

def decodeJoinGroupResponse : Decode JoinGroupResponse := do
  let errorCode ← getErrorCode
  let generationId ← getU32
  let memberId ← getString
  let leaderId ← getString
  let members ← getCounted getString
  return { errorCode, generationId, memberId, leaderId, members }

def encodeSyncGroupAssignment (a : SyncGroupAssignment) : Bytes :=
  putString a.memberId ++ putCounted putU32 a.partitions

def decodeSyncGroupAssignment : Decode SyncGroupAssignment := do
  let memberId ← getString
  let partitions ← getCounted getU32
  return { memberId, partitions }

def encodeSyncGroupRequest (req : SyncGroupRequest) : Bytes :=
  putString req.groupId ++ (putString req.memberId ++ (putU32 req.generationId ++
    putCounted encodeSyncGroupAssignment req.assignments))

def decodeSyncGroupRequest : Decode SyncGroupRequest := do
  let groupId ← getString
  let memberId ← getString
  let generationId ← getU32
  let assignments ← getCounted decodeSyncGroupAssignment
  return { groupId, memberId, generationId, assignments }

structure SyncGroupResponse where
  errorCode : ErrorCode := .none
  partitions : List UInt32
  deriving DecidableEq, Repr

def encodeSyncGroupResponse (resp : SyncGroupResponse) : Bytes :=
  putErrorCode resp.errorCode ++ putCounted putU32 resp.partitions

def decodeSyncGroupResponse : Decode SyncGroupResponse := do
  let errorCode ← getErrorCode
  let partitions ← getCounted getU32
  return { errorCode, partitions }

structure HeartbeatRequest where
  groupId : GroupId
  memberId : MemberId
  generationId : UInt32 := 0
  deriving DecidableEq, Repr

def encodeHeartbeatRequest (req : HeartbeatRequest) : Bytes :=
  putString req.groupId ++ (putString req.memberId ++ putU32 req.generationId)

def decodeHeartbeatRequest : Decode HeartbeatRequest := do
  let groupId ← getString
  let memberId ← getString
  let generationId ← getU32
  return { groupId, memberId, generationId }

abbrev HeartbeatResponse := ErrorResponse

def encodeHeartbeatResponse : HeartbeatResponse → Bytes := encodeErrorResponse

def decodeHeartbeatResponse : Decode HeartbeatResponse := decodeErrorResponse

structure LeaveGroupRequest where
  groupId : GroupId
  memberId : MemberId
  deriving DecidableEq, Repr

def encodeLeaveGroupRequest (req : LeaveGroupRequest) : Bytes :=
  putString req.groupId ++ putString req.memberId

def decodeLeaveGroupRequest : Decode LeaveGroupRequest := do
  let groupId ← getString
  let memberId ← getString
  return { groupId, memberId }

abbrev LeaveGroupResponse := ErrorResponse

def encodeLeaveGroupResponse : LeaveGroupResponse → Bytes := encodeErrorResponse

def decodeLeaveGroupResponse : Decode LeaveGroupResponse := decodeErrorResponse

def encodeCommitOffsetRequest (req : CommitOffsetRequest) : Bytes :=
  putString req.groupId ++ (putString req.memberId ++ (putU32 req.generationId ++
    (putString req.topic ++ (putU32 req.partitionId ++ putU64 req.offset))))

def decodeCommitOffsetRequest : Decode CommitOffsetRequest := do
  let groupId ← getString
  let memberId ← getString
  let generationId ← getU32
  let topic ← getString
  let partitionId ← getU32
  let offset ← getU64
  return { groupId, memberId, generationId, topic, partitionId, offset }

abbrev CommitOffsetResponse := ErrorResponse

def encodeCommitOffsetResponse : CommitOffsetResponse → Bytes := encodeErrorResponse

def decodeCommitOffsetResponse : Decode CommitOffsetResponse := decodeErrorResponse

structure FetchOffsetRequest where
  groupId : GroupId
  topic : Topic
  partitionId : UInt32 := 0
  deriving DecidableEq, Repr

def encodeFetchOffsetRequest (req : FetchOffsetRequest) : Bytes :=
  putString req.groupId ++ (putString req.topic ++ putU32 req.partitionId)

def decodeFetchOffsetRequest : Decode FetchOffsetRequest := do
  let groupId ← getString
  let topic ← getString
  let partitionId ← getU32
  return { groupId, topic, partitionId }

structure FetchOffsetResponse where
  errorCode : ErrorCode := .none
  offset : Int64 := -1
  deriving DecidableEq, Repr

def encodeFetchOffsetResponse (resp : FetchOffsetResponse) : Bytes :=
  putErrorCode resp.errorCode ++ putI64 resp.offset

def decodeFetchOffsetResponse : Decode FetchOffsetResponse := do
  let errorCode ← getErrorCode
  let offset ← getI64
  return { errorCode, offset }

end ConsumerGroups

section ClusterElection

def encodeRequestVoteRequest (req : RequestVoteRequest) : Bytes :=
  putU32 req.term ++ putU32 req.candidateId

def decodeRequestVoteRequest : Decode RequestVoteRequest := do
  let term ← getU32
  let candidateId ← getU32
  return { term, candidateId }

def encodeRequestVoteResponse (resp : RequestVoteResponse) : Bytes :=
  putU32 resp.term ++ putBool resp.voteGranted

def decodeRequestVoteResponse : Decode RequestVoteResponse := do
  let term ← getU32
  let voteGranted ← getBool
  return { term, voteGranted }

def encodeControllerHeartbeatRequest (req : ControllerHeartbeatRequest) : Bytes :=
  putU32 req.term ++ putU32 req.leaderId

def decodeControllerHeartbeatRequest : Decode ControllerHeartbeatRequest := do
  let term ← getU32
  let leaderId ← getU32
  return { term, leaderId }

def encodeControllerHeartbeatResponse (resp : ControllerHeartbeatResponse) : Bytes :=
  putU32 resp.term ++ putBool resp.success

def decodeControllerHeartbeatResponse : Decode ControllerHeartbeatResponse := do
  let term ← getU32
  let success ← getBool
  return { term, success }

structure BrokerHeartbeatRequest where
  deriving DecidableEq, Repr

def encodeBrokerHeartbeatRequest (_ : BrokerHeartbeatRequest) : Bytes := []

def decodeBrokerHeartbeatRequest : Decode BrokerHeartbeatRequest := return {}

structure BrokerHeartbeatResponse where
  alive : Bool := true
  deriving DecidableEq, Repr

def encodeBrokerHeartbeatResponse (resp : BrokerHeartbeatResponse) : Bytes :=
  putBool resp.alive

def decodeBrokerHeartbeatResponse : Decode BrokerHeartbeatResponse := do
  let alive ← getBool
  return { alive }

def encodeLeaderAndISREntry (e : LeaderAndISREntry) : Bytes :=
  putString e.topic ++ (putU32 e.partitionId ++ (putU32 e.leaderId ++
    (putCounted putU32 e.replicas ++ putCounted putU32 e.isr)))

def decodeLeaderAndISREntry : Decode LeaderAndISREntry := do
  let topic ← getString
  let partitionId ← getU32
  let leaderId ← getU32
  let replicas ← getCounted getU32
  let isr ← getCounted getU32
  return { topic, partitionId, leaderId, replicas, isr }

structure LeaderAndISRRequest where
  assignments : List LeaderAndISREntry
  deriving DecidableEq, Repr

def encodeLeaderAndISRRequest (req : LeaderAndISRRequest) : Bytes :=
  putCounted encodeLeaderAndISREntry req.assignments

def decodeLeaderAndISRRequest : Decode LeaderAndISRRequest := do
  let assignments ← getCounted decodeLeaderAndISREntry
  return { assignments }

abbrev LeaderAndISRResponse := ErrorResponse

def encodeLeaderAndISRResponse : LeaderAndISRResponse → Bytes := encodeErrorResponse

def decodeLeaderAndISRResponse : Decode LeaderAndISRResponse := decodeErrorResponse

def encodeIsrUpdateRequest (req : IsrUpdateRequest) : Bytes :=
  putString req.topic ++ (putU32 req.partitionId ++ putCounted putU32 req.isr)

def decodeIsrUpdateRequest : Decode IsrUpdateRequest := do
  let topic ← getString
  let partitionId ← getU32
  let isr ← getCounted getU32
  return { topic, partitionId, isr }

abbrev IsrUpdateResponse := ErrorResponse

def encodeIsrUpdateResponse : IsrUpdateResponse → Bytes := encodeErrorResponse

def decodeIsrUpdateResponse : Decode IsrUpdateResponse := decodeErrorResponse

end ClusterElection

end MiniKafka.Protocol
