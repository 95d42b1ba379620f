import MiniKafka.Protocol.Requests

/-!
# Round trips of the payloads

Each payload whose lengths fit their fields is read back whole, and no part of it is a
payload. Where neither a flag nor a record is on the wire, the decoder accepts the bytes of
the encoder only: any byte but 0 is read as true, and a record's frame may have bytes
behind the body.
-/

namespace MiniKafka.Protocol

open Cluster Common Foundations Storage
open MiniKafka.Group (GroupId MemberId JoinGroupRequest SyncGroupAssignment SyncGroupRequest
  CommitOffsetRequest)

/-- The length of a string is sent in 16 bits. -/
abbrev StringFits (s : Bytes) : Prop := s.length < 2 ^ 16

/-- The number of elements is sent in 32 bits. -/
abbrev CountFits {α : Type} (elems : List α) : Prop := elems.length < 2 ^ 32

theorem getErrorCode_delimits (e : ErrorCode) : Delimits getErrorCode (putErrorCode e) e :=
  (getI16_delimits e.value).last

theorem getErrorCode_canonical : Canonical getErrorCode putErrorCode :=
  getI16_canonical.last fun _ => rfl

theorem getBool_delimits (b : Bool) : Delimits getBool (putBool b) b := by
  cases b
  · exact (getU8_delimits 0).last
  · exact (getU8_delimits 1).last

theorem getRecords_delimits {records : List Record} (count : CountFits records)
    (framed : ∀ rec ∈ records, rec.Framed) :
    Delimits (getCounted decodeRecord) (putCounted encodeRecord records) records :=
  getCounted_delimits count fun rec hrec => decodeRecord_delimits (framed rec hrec)

theorem getStrings_delimits {strings : List Bytes} (count : CountFits strings)
    (fits : ∀ s ∈ strings, StringFits s) :
    Delimits (getCounted getString) (putCounted putString strings) strings :=
  getCounted_delimits count fun s hs => getString_delimits (fits s hs)

theorem getNumbers_delimits {numbers : List UInt32} (count : CountFits numbers) :
    Delimits (getCounted getU32) (putCounted putU32 numbers) numbers :=
  getCounted_delimits count fun n _ => getU32_delimits n

theorem getNumbers_canonical : Canonical (getCounted getU32) (putCounted putU32) :=
  getCounted_canonical getU32_canonical

section Produce

structure ProduceRequest.Fits (req : ProduceRequest) : Prop where
  topic : StringFits req.topic
  count : CountFits req.records
  records : ∀ rec ∈ req.records, rec.Framed

theorem produceRequest_delimits {req : ProduceRequest} (h : req.Fits) :
    Delimits decodeProduceRequest (encodeProduceRequest req) req := by
  apply (getString_delimits h.topic).bind
  apply (getU32_delimits req.partitionId).bind
  apply (getU8_delimits req.acks).bind
  exact (getRecords_delimits h.count h.records).last

theorem produceResponse_delimits {resp : ProduceResponse} (host : StringFits resp.leaderHost) :
    Delimits decodeProduceResponse (encodeProduceResponse resp) resp := by
  apply (getErrorCode_delimits resp.errorCode).bind
  apply (getU64_delimits resp.baseOffset).bind
  apply (getString_delimits host).bind
  exact (getU32_delimits resp.leaderPort).last

theorem produceResponse_canonical : Canonical decodeProduceResponse encodeProduceResponse := by
  apply getErrorCode_canonical.bind
  intro errorCode
  apply getU64_canonical.bind
  intro baseOffset
  apply getString_canonical.bind
  intro leaderHost
  apply getU32_canonical.last
  intro leaderPort
  simp [encodeProduceResponse]

end Produce

section Fetch

structure FetchResponse.Fits (resp : FetchResponse) : Prop where
  host : StringFits resp.leaderHost
  count : CountFits resp.records
  records : ∀ rec ∈ resp.records, rec.Framed

theorem fetchRequest_delimits {req : FetchRequest} (topic : StringFits req.topic) :
    Delimits decodeFetchRequest (encodeFetchRequest req) req := by
  apply (getString_delimits topic).bind
  apply (getU32_delimits req.partitionId).bind
  apply (getU64_delimits req.fetchOffset).bind
  exact (getU32_delimits req.maxBytes).last

theorem fetchRequest_canonical : Canonical decodeFetchRequest encodeFetchRequest := by
  apply getString_canonical.bind
  intro topic
  apply getU32_canonical.bind
  intro partitionId
  apply getU64_canonical.bind
  intro fetchOffset
  apply getU32_canonical.last
  intro maxBytes
  simp [encodeFetchRequest]

theorem fetchResponse_delimits {resp : FetchResponse} (h : resp.Fits) :
    Delimits decodeFetchResponse (encodeFetchResponse resp) resp := by
  apply (getErrorCode_delimits resp.errorCode).bind
  apply (getU64_delimits resp.highWatermark).bind
  apply (getString_delimits h.host).bind
  apply (getU32_delimits resp.leaderPort).bind
  exact (getRecords_delimits h.count h.records).last

theorem replicaFetchRequest_delimits {req : ReplicaFetchRequest} (topic : StringFits req.topic) :
    Delimits decodeReplicaFetchRequest (encodeReplicaFetchRequest req) req := by
  apply (getString_delimits topic).bind
  apply (getU32_delimits req.partitionId).bind
  apply (getU32_delimits req.replicaId).bind
  apply (getU64_delimits req.fetchOffset).bind
  exact (getU32_delimits req.maxBytes).last

theorem replicaFetchRequest_canonical :
    Canonical decodeReplicaFetchRequest encodeReplicaFetchRequest := by
  apply getString_canonical.bind
  intro topic
  apply getU32_canonical.bind
  intro partitionId
  apply getU32_canonical.bind
  intro replicaId
  apply getU64_canonical.bind
  intro fetchOffset
  apply getU32_canonical.last
  intro maxBytes
  simp [encodeReplicaFetchRequest]

end Fetch

section Metadata

structure MetadataResponse.Fits (resp : MetadataResponse) : Prop where
  count : CountFits resp.partitions
  hosts : ∀ p ∈ resp.partitions, StringFits p.leaderHost

theorem metadataRequest_delimits {req : MetadataRequest} (topic : StringFits req.topic) :
    Delimits decodeMetadataRequest (encodeMetadataRequest req) req :=
  (getString_delimits topic).last

theorem metadataRequest_canonical : Canonical decodeMetadataRequest encodeMetadataRequest :=
  getString_canonical.last fun _ => rfl

theorem partitionMetadata_delimits {p : PartitionMetadata} (host : StringFits p.leaderHost) :
    Delimits decodePartitionMetadata (encodePartitionMetadata p) p := by
  apply (getU32_delimits p.partitionId).bind
  apply (getU32_delimits p.leaderId).bind
  apply (getString_delimits host).bind
  exact (getU32_delimits p.leaderPort).last

theorem partitionMetadata_canonical :
    Canonical decodePartitionMetadata encodePartitionMetadata := by
  apply getU32_canonical.bind
  intro partitionId
  apply getU32_canonical.bind
  intro leaderId
  apply getString_canonical.bind
  intro leaderHost
  apply getU32_canonical.last
  intro leaderPort
  simp [encodePartitionMetadata]

theorem metadataResponse_delimits {resp : MetadataResponse} (h : resp.Fits) :
    Delimits decodeMetadataResponse (encodeMetadataResponse resp) resp := by
  apply (getErrorCode_delimits resp.errorCode).bind
  have each := fun p hp => partitionMetadata_delimits (h.hosts p hp)
  exact (getCounted_delimits h.count each).last

theorem metadataResponse_canonical :
    Canonical decodeMetadataResponse encodeMetadataResponse := by
  apply getErrorCode_canonical.bind
  intro errorCode
  apply (getCounted_canonical partitionMetadata_canonical).last
  intro partitions
  simp [encodeMetadataResponse]

theorem createTopicRequest_delimits {req : CreateTopicRequest} (topic : StringFits req.topic) :
    Delimits decodeCreateTopicRequest (encodeCreateTopicRequest req) req := by
  apply (getString_delimits topic).bind
  apply (getU32_delimits req.numPartitions).bind
  exact (getU32_delimits req.replicationFactor).last

theorem createTopicRequest_canonical :
    Canonical decodeCreateTopicRequest encodeCreateTopicRequest := by
  apply getString_canonical.bind
  intro topic
  apply getU32_canonical.bind
  intro numPartitions
  apply getU32_canonical.last
  intro replicationFactor
  simp [encodeCreateTopicRequest]

theorem createTopicResponse_delimits {resp : CreateTopicResponse}
    (host : StringFits resp.controllerHost) :
    Delimits decodeCreateTopicResponse (encodeCreateTopicResponse resp) resp := by
  apply (getErrorCode_delimits resp.errorCode).bind
  apply (getU32_delimits resp.controllerId).bind
  apply (getString_delimits host).bind
  exact (getU32_delimits resp.controllerPort).last

theorem createTopicResponse_canonical :
    Canonical decodeCreateTopicResponse encodeCreateTopicResponse := by
  apply getErrorCode_canonical.bind
  intro errorCode
  apply getU32_canonical.bind
  intro controllerId
  apply getString_canonical.bind
  intro controllerHost
  apply getU32_canonical.last
  intro controllerPort
  simp [encodeCreateTopicResponse]

end Metadata

theorem errorResponse_delimits (resp : ErrorResponse) :
    Delimits decodeErrorResponse (encodeErrorResponse resp) resp :=
  (getErrorCode_delimits resp.errorCode).last

theorem errorResponse_canonical : Canonical decodeErrorResponse encodeErrorResponse :=
  getErrorCode_canonical.last fun _ => rfl

section ConsumerGroups

structure JoinGroupRequestFits (req : JoinGroupRequest) : Prop where
  groupId : StringFits req.groupId
  topic : StringFits req.topic

structure JoinGroupResponse.Fits (resp : JoinGroupResponse) : Prop where
  memberId : StringFits resp.memberId
  leaderId : StringFits resp.leaderId
  count : CountFits resp.members
  members : ∀ m ∈ resp.members, StringFits m

structure SyncGroupAssignmentFits (a : SyncGroupAssignment) : Prop where
  memberId : StringFits a.memberId
  count : CountFits a.partitions

structure SyncGroupRequestFits (req : SyncGroupRequest) : Prop where
  groupId : StringFits req.groupId
  memberId : StringFits req.memberId
  count : CountFits req.assignments
  assignments : ∀ a ∈ req.assignments, SyncGroupAssignmentFits a

structure HeartbeatRequest.Fits (req : HeartbeatRequest) : Prop where
  groupId : StringFits req.groupId
  memberId : StringFits req.memberId

structure LeaveGroupRequest.Fits (req : LeaveGroupRequest) : Prop where
  groupId : StringFits req.groupId
  memberId : StringFits req.memberId

structure CommitOffsetRequestFits (req : CommitOffsetRequest) : Prop where
  groupId : StringFits req.groupId
  memberId : StringFits req.memberId
  topic : StringFits req.topic

structure FetchOffsetRequest.Fits (req : FetchOffsetRequest) : Prop where
  groupId : StringFits req.groupId
  topic : StringFits req.topic

theorem findCoordinatorRequest_delimits {req : FindCoordinatorRequest}
    (groupId : StringFits req.groupId) :
    Delimits decodeFindCoordinatorRequest (encodeFindCoordinatorRequest req) req :=
  (getString_delimits groupId).last

theorem findCoordinatorRequest_canonical :
    Canonical decodeFindCoordinatorRequest encodeFindCoordinatorRequest :=
  getString_canonical.last fun _ => rfl

theorem findCoordinatorResponse_delimits {resp : FindCoordinatorResponse}
    (host : StringFits resp.host) :
    Delimits decodeFindCoordinatorResponse (encodeFindCoordinatorResponse resp) resp := by
  apply (getErrorCode_delimits resp.errorCode).bind
  apply (getU32_delimits resp.coordinatorId).bind
  apply (getString_delimits host).bind
  exact (getU32_delimits resp.port).last

theorem findCoordinatorResponse_canonical :
    Canonical decodeFindCoordinatorResponse encodeFindCoordinatorResponse := by
  apply getErrorCode_canonical.bind
  intro errorCode
  apply getU32_canonical.bind
  intro coordinatorId
  apply getString_canonical.bind
  intro host
  apply getU32_canonical.last
  intro port
  simp [encodeFindCoordinatorResponse]

theorem joinGroupRequest_delimits {req : JoinGroupRequest} (h : JoinGroupRequestFits req) :
    Delimits decodeJoinGroupRequest (encodeJoinGroupRequest req) req := by
  apply (getString_delimits h.groupId).bind
  apply (getString_delimits h.topic).bind
  exact (getU32_delimits req.sessionTimeoutMs).last

theorem joinGroupRequest_canonical :
    Canonical decodeJoinGroupRequest encodeJoinGroupRequest := by
  apply getString_canonical.bind
  intro groupId
  apply getString_canonical.bind
  intro topic
  apply getU32_canonical.last
  intro sessionTimeoutMs
  simp [encodeJoinGroupRequest]

theorem joinGroupResponse_delimits {resp : JoinGroupResponse} (h : resp.Fits) :
    Delimits decodeJoinGroupResponse (encodeJoinGroupResponse resp) resp := by
  apply (getErrorCode_delimits resp.errorCode).bind
  apply (getU32_delimits resp.generationId).bind
  apply (getString_delimits h.memberId).bind
  apply (getString_delimits h.leaderId).bind
  exact (getStrings_delimits h.count h.members).last

theorem joinGroupResponse_canonical :
    Canonical decodeJoinGroupResponse encodeJoinGroupResponse := by
  apply getErrorCode_canonical.bind
  intro errorCode
  apply getU32_canonical.bind
  intro generationId
  apply getString_canonical.bind
  intro memberId
  apply getString_canonical.bind
  intro leaderId
  apply (getCounted_canonical getString_canonical).last
  intro members
  simp [encodeJoinGroupResponse]

theorem syncGroupAssignment_delimits {a : SyncGroupAssignment} (h : SyncGroupAssignmentFits a) :
    Delimits decodeSyncGroupAssignment (encodeSyncGroupAssignment a) a := by
  apply (getString_delimits h.memberId).bind
  exact (getNumbers_delimits h.count).last

theorem syncGroupAssignment_canonical :
    Canonical decodeSyncGroupAssignment encodeSyncGroupAssignment := by
  apply getString_canonical.bind
  intro memberId
  apply getNumbers_canonical.last
  intro partitions
  simp [encodeSyncGroupAssignment]

theorem syncGroupRequest_delimits {req : SyncGroupRequest} (h : SyncGroupRequestFits req) :
    Delimits decodeSyncGroupRequest (encodeSyncGroupRequest req) req := by
  apply (getString_delimits h.groupId).bind
  apply (getString_delimits h.memberId).bind
  apply (getU32_delimits req.generationId).bind
  have each := fun a ha => syncGroupAssignment_delimits (h.assignments a ha)
  exact (getCounted_delimits h.count each).last

theorem syncGroupRequest_canonical :
    Canonical decodeSyncGroupRequest encodeSyncGroupRequest := by
  apply getString_canonical.bind
  intro groupId
  apply getString_canonical.bind
  intro memberId
  apply getU32_canonical.bind
  intro generationId
  apply (getCounted_canonical syncGroupAssignment_canonical).last
  intro assignments
  simp [encodeSyncGroupRequest]

theorem syncGroupResponse_delimits {resp : SyncGroupResponse}
    (count : CountFits resp.partitions) :
    Delimits decodeSyncGroupResponse (encodeSyncGroupResponse resp) resp := by
  apply (getErrorCode_delimits resp.errorCode).bind
  exact (getNumbers_delimits count).last

theorem syncGroupResponse_canonical :
    Canonical decodeSyncGroupResponse encodeSyncGroupResponse := by
  apply getErrorCode_canonical.bind
  intro errorCode
  apply getNumbers_canonical.last
  intro partitions
  simp [encodeSyncGroupResponse]

theorem heartbeatRequest_delimits {req : HeartbeatRequest} (h : req.Fits) :
    Delimits decodeHeartbeatRequest (encodeHeartbeatRequest req) req := by
  apply (getString_delimits h.groupId).bind
  apply (getString_delimits h.memberId).bind
  exact (getU32_delimits req.generationId).last

theorem heartbeatRequest_canonical :
    Canonical decodeHeartbeatRequest encodeHeartbeatRequest := by
  apply getString_canonical.bind
  intro groupId
  apply getString_canonical.bind
  intro memberId
  apply getU32_canonical.last
  intro generationId
  simp [encodeHeartbeatRequest]

theorem leaveGroupRequest_delimits {req : LeaveGroupRequest} (h : req.Fits) :
    Delimits decodeLeaveGroupRequest (encodeLeaveGroupRequest req) req := by
  apply (getString_delimits h.groupId).bind
  exact (getString_delimits h.memberId).last

theorem leaveGroupRequest_canonical :
    Canonical decodeLeaveGroupRequest encodeLeaveGroupRequest := by
  apply getString_canonical.bind
  intro groupId
  apply getString_canonical.last
  intro memberId
  simp [encodeLeaveGroupRequest]

theorem commitOffsetRequest_delimits {req : CommitOffsetRequest}
    (h : CommitOffsetRequestFits req) :
    Delimits decodeCommitOffsetRequest (encodeCommitOffsetRequest req) req := by
  apply (getString_delimits h.groupId).bind
  apply (getString_delimits h.memberId).bind
  apply (getU32_delimits req.generationId).bind
  apply (getString_delimits h.topic).bind
  apply (getU32_delimits req.partitionId).bind
  exact (getU64_delimits req.offset).last

theorem commitOffsetRequest_canonical :
    Canonical decodeCommitOffsetRequest encodeCommitOffsetRequest := by
  apply getString_canonical.bind
  intro groupId
  apply getString_canonical.bind
  intro memberId
  apply getU32_canonical.bind
  intro generationId
  apply getString_canonical.bind
  intro topic
  apply getU32_canonical.bind
  intro partitionId
  apply getU64_canonical.last
  intro offset
  simp [encodeCommitOffsetRequest]

theorem fetchOffsetRequest_delimits {req : FetchOffsetRequest} (h : req.Fits) :
    Delimits decodeFetchOffsetRequest (encodeFetchOffsetRequest req) req := by
  apply (getString_delimits h.groupId).bind
  apply (getString_delimits h.topic).bind
  exact (getU32_delimits req.partitionId).last

theorem fetchOffsetRequest_canonical :
    Canonical decodeFetchOffsetRequest encodeFetchOffsetRequest := by
  apply getString_canonical.bind
  intro groupId
  apply getString_canonical.bind
  intro topic
  apply getU32_canonical.last
  intro partitionId
  simp [encodeFetchOffsetRequest]

theorem fetchOffsetResponse_delimits (resp : FetchOffsetResponse) :
    Delimits decodeFetchOffsetResponse (encodeFetchOffsetResponse resp) resp := by
  apply (getErrorCode_delimits resp.errorCode).bind
  exact (getI64_delimits resp.offset).last

theorem fetchOffsetResponse_canonical :
    Canonical decodeFetchOffsetResponse encodeFetchOffsetResponse := by
  apply getErrorCode_canonical.bind
  intro errorCode
  apply getI64_canonical.last
  intro offset
  simp [encodeFetchOffsetResponse]

end ConsumerGroups

section ClusterElection

structure LeaderAndISREntryFits (e : LeaderAndISREntry) : Prop where
  topic : StringFits e.topic
  replicas : CountFits e.replicas
  isr : CountFits e.isr

structure LeaderAndISRRequest.Fits (req : LeaderAndISRRequest) : Prop where
  count : CountFits req.assignments
  assignments : ∀ e ∈ req.assignments, LeaderAndISREntryFits e

structure IsrUpdateRequestFits (req : IsrUpdateRequest) : Prop where
  topic : StringFits req.topic
  isr : CountFits req.isr

theorem requestVoteRequest_delimits (req : RequestVoteRequest) :
    Delimits decodeRequestVoteRequest (encodeRequestVoteRequest req) req := by
  apply (getU32_delimits req.term).bind
  exact (getU32_delimits req.candidateId).last

theorem requestVoteRequest_canonical :
    Canonical decodeRequestVoteRequest encodeRequestVoteRequest := by
  apply getU32_canonical.bind
  intro term
  apply getU32_canonical.last
  intro candidateId
  simp [encodeRequestVoteRequest]

theorem requestVoteResponse_delimits (resp : RequestVoteResponse) :
    Delimits decodeRequestVoteResponse (encodeRequestVoteResponse resp) resp := by
  apply (getU32_delimits resp.term).bind
  exact (getBool_delimits resp.voteGranted).last

theorem controllerHeartbeatRequest_delimits (req : ControllerHeartbeatRequest) :
    Delimits decodeControllerHeartbeatRequest (encodeControllerHeartbeatRequest req) req := by
  apply (getU32_delimits req.term).bind
  exact (getU32_delimits req.leaderId).last

theorem controllerHeartbeatRequest_canonical :
    Canonical decodeControllerHeartbeatRequest encodeControllerHeartbeatRequest := by
  apply getU32_canonical.bind
  intro term
  apply getU32_canonical.last
  intro leaderId
  simp [encodeControllerHeartbeatRequest]

theorem controllerHeartbeatResponse_delimits (resp : ControllerHeartbeatResponse) :
    Delimits decodeControllerHeartbeatResponse (encodeControllerHeartbeatResponse resp)
      resp := by
  apply (getU32_delimits resp.term).bind
  exact (getBool_delimits resp.success).last

theorem brokerHeartbeatRequest_delimits (req : BrokerHeartbeatRequest) :
    Delimits decodeBrokerHeartbeatRequest (encodeBrokerHeartbeatRequest req) req :=
  .pure rfl

theorem brokerHeartbeatRequest_canonical :
    Canonical decodeBrokerHeartbeatRequest encodeBrokerHeartbeatRequest :=
  .pure rfl

theorem brokerHeartbeatResponse_delimits (resp : BrokerHeartbeatResponse) :
    Delimits decodeBrokerHeartbeatResponse (encodeBrokerHeartbeatResponse resp) resp :=
  (getBool_delimits resp.alive).last

theorem leaderAndISREntry_delimits {e : LeaderAndISREntry} (h : LeaderAndISREntryFits e) :
    Delimits decodeLeaderAndISREntry (encodeLeaderAndISREntry e) e := by
  apply (getString_delimits h.topic).bind
  apply (getU32_delimits e.partitionId).bind
  apply (getU32_delimits e.leaderId).bind
  apply (getNumbers_delimits h.replicas).bind
  exact (getNumbers_delimits h.isr).last

theorem leaderAndISREntry_canonical :
    Canonical decodeLeaderAndISREntry encodeLeaderAndISREntry := by
  apply getString_canonical.bind
  intro topic
  apply getU32_canonical.bind
  intro partitionId
  apply getU32_canonical.bind
  intro leaderId
  apply getNumbers_canonical.bind
  intro replicas
  apply getNumbers_canonical.last
  intro isr
  simp [encodeLeaderAndISREntry]

theorem leaderAndISRRequest_delimits {req : LeaderAndISRRequest} (h : req.Fits) :
    Delimits decodeLeaderAndISRRequest (encodeLeaderAndISRRequest req) req :=
  have each := fun e he => leaderAndISREntry_delimits (h.assignments e he)
  (getCounted_delimits h.count each).last

theorem leaderAndISRRequest_canonical :
    Canonical decodeLeaderAndISRRequest encodeLeaderAndISRRequest :=
  (getCounted_canonical leaderAndISREntry_canonical).last fun _ => rfl

theorem isrUpdateRequest_delimits {req : IsrUpdateRequest} (h : IsrUpdateRequestFits req) :
    Delimits decodeIsrUpdateRequest (encodeIsrUpdateRequest req) req := by
  apply (getString_delimits h.topic).bind
  apply (getU32_delimits req.partitionId).bind
  exact (getNumbers_delimits h.isr).last

theorem isrUpdateRequest_canonical :
    Canonical decodeIsrUpdateRequest encodeIsrUpdateRequest := by
  apply getString_canonical.bind
  intro topic
  apply getU32_canonical.bind
  intro partitionId
  apply getNumbers_canonical.last
  intro isr
  simp [encodeIsrUpdateRequest]

end ClusterElection

/-- The encoder and the decoder of a type, and its values that can be sent. -/
structure MessageCodec where
  Message : Type
  encode : Message → Bytes
  decode : Decode Message
  Fits : Message → Prop

/-- The request and response types. -/
inductive MessageType
  | produceRequest
  | produceResponse
  | fetchRequest
  | fetchResponse
  | replicaFetchRequest
  | metadataRequest
  | metadataResponse
  | createTopicRequest
  | createTopicResponse
  | findCoordinatorRequest
  | findCoordinatorResponse
  | joinGroupRequest
  | joinGroupResponse
  | syncGroupRequest
  | syncGroupResponse
  | heartbeatRequest
  | heartbeatResponse
  | leaveGroupRequest
  | leaveGroupResponse
  | commitOffsetRequest
  | commitOffsetResponse
  | fetchOffsetRequest
  | fetchOffsetResponse
  | requestVoteRequest
  | requestVoteResponse
  | controllerHeartbeatRequest
  | controllerHeartbeatResponse
  | brokerHeartbeatRequest
  | brokerHeartbeatResponse
  | leaderAndISRRequest
  | leaderAndISRResponse
  | isrUpdateRequest
  | isrUpdateResponse
  deriving DecidableEq, Repr

def MessageType.codec : MessageType → MessageCodec
  | .produceRequest =>
      ⟨ProduceRequest, encodeProduceRequest, decodeProduceRequest, ProduceRequest.Fits⟩
  | .produceResponse =>
      ⟨ProduceResponse, encodeProduceResponse, decodeProduceResponse,
        fun resp => StringFits resp.leaderHost⟩
  | .fetchRequest =>
      ⟨FetchRequest, encodeFetchRequest, decodeFetchRequest, fun req => StringFits req.topic⟩
  | .fetchResponse =>
      ⟨FetchResponse, encodeFetchResponse, decodeFetchResponse, FetchResponse.Fits⟩
  | .replicaFetchRequest =>
      ⟨ReplicaFetchRequest, encodeReplicaFetchRequest, decodeReplicaFetchRequest,
        fun req => StringFits req.topic⟩
  | .metadataRequest =>
      ⟨MetadataRequest, encodeMetadataRequest, decodeMetadataRequest,
        fun req => StringFits req.topic⟩
  | .metadataResponse =>
      ⟨MetadataResponse, encodeMetadataResponse, decodeMetadataResponse,
        MetadataResponse.Fits⟩
  | .createTopicRequest =>
      ⟨CreateTopicRequest, encodeCreateTopicRequest, decodeCreateTopicRequest,
        fun req => StringFits req.topic⟩
  | .createTopicResponse =>
      ⟨CreateTopicResponse, encodeCreateTopicResponse, decodeCreateTopicResponse,
        fun resp => StringFits resp.controllerHost⟩
  | .findCoordinatorRequest =>
      ⟨FindCoordinatorRequest, encodeFindCoordinatorRequest, decodeFindCoordinatorRequest,
        fun req => StringFits req.groupId⟩
  | .findCoordinatorResponse =>
      ⟨FindCoordinatorResponse, encodeFindCoordinatorResponse, decodeFindCoordinatorResponse,
        fun resp => StringFits resp.host⟩
  | .joinGroupRequest =>
      ⟨JoinGroupRequest, encodeJoinGroupRequest, decodeJoinGroupRequest, JoinGroupRequestFits⟩
  | .joinGroupResponse =>
      ⟨JoinGroupResponse, encodeJoinGroupResponse, decodeJoinGroupResponse,
        JoinGroupResponse.Fits⟩
  | .syncGroupRequest =>
      ⟨SyncGroupRequest, encodeSyncGroupRequest, decodeSyncGroupRequest, SyncGroupRequestFits⟩
  | .syncGroupResponse =>
      ⟨SyncGroupResponse, encodeSyncGroupResponse, decodeSyncGroupResponse,
        fun resp => CountFits resp.partitions⟩
  | .heartbeatRequest =>
      ⟨HeartbeatRequest, encodeHeartbeatRequest, decodeHeartbeatRequest, HeartbeatRequest.Fits⟩
  | .heartbeatResponse =>
      ⟨HeartbeatResponse, encodeHeartbeatResponse, decodeHeartbeatResponse, fun _ => True⟩
  | .leaveGroupRequest =>
      ⟨LeaveGroupRequest, encodeLeaveGroupRequest, decodeLeaveGroupRequest,
        LeaveGroupRequest.Fits⟩
  | .leaveGroupResponse =>
      ⟨LeaveGroupResponse, encodeLeaveGroupResponse, decodeLeaveGroupResponse, fun _ => True⟩
  | .commitOffsetRequest =>
      ⟨CommitOffsetRequest, encodeCommitOffsetRequest, decodeCommitOffsetRequest,
        CommitOffsetRequestFits⟩
  | .commitOffsetResponse =>
      ⟨CommitOffsetResponse, encodeCommitOffsetResponse, decodeCommitOffsetResponse,
        fun _ => True⟩
  | .fetchOffsetRequest =>
      ⟨FetchOffsetRequest, encodeFetchOffsetRequest, decodeFetchOffsetRequest,
        FetchOffsetRequest.Fits⟩
  | .fetchOffsetResponse =>
      ⟨FetchOffsetResponse, encodeFetchOffsetResponse, decodeFetchOffsetResponse,
        fun _ => True⟩
  | .requestVoteRequest =>
      ⟨RequestVoteRequest, encodeRequestVoteRequest, decodeRequestVoteRequest, fun _ => True⟩
  | .requestVoteResponse =>
      ⟨RequestVoteResponse, encodeRequestVoteResponse, decodeRequestVoteResponse,
        fun _ => True⟩
  | .controllerHeartbeatRequest =>
      ⟨ControllerHeartbeatRequest, encodeControllerHeartbeatRequest,
        decodeControllerHeartbeatRequest, fun _ => True⟩
  | .controllerHeartbeatResponse =>
      ⟨ControllerHeartbeatResponse, encodeControllerHeartbeatResponse,
        decodeControllerHeartbeatResponse, fun _ => True⟩
  | .brokerHeartbeatRequest =>
      ⟨BrokerHeartbeatRequest, encodeBrokerHeartbeatRequest, decodeBrokerHeartbeatRequest,
        fun _ => True⟩
  | .brokerHeartbeatResponse =>
      ⟨BrokerHeartbeatResponse, encodeBrokerHeartbeatResponse, decodeBrokerHeartbeatResponse,
        fun _ => True⟩
  | .leaderAndISRRequest =>
      ⟨LeaderAndISRRequest, encodeLeaderAndISRRequest, decodeLeaderAndISRRequest,
        LeaderAndISRRequest.Fits⟩
  | .leaderAndISRResponse =>
      ⟨LeaderAndISRResponse, encodeLeaderAndISRResponse, decodeLeaderAndISRResponse,
        fun _ => True⟩
  | .isrUpdateRequest =>
      ⟨IsrUpdateRequest, encodeIsrUpdateRequest, decodeIsrUpdateRequest, IsrUpdateRequestFits⟩
  | .isrUpdateResponse =>
      ⟨IsrUpdateResponse, encodeIsrUpdateResponse, decodeIsrUpdateResponse, fun _ => True⟩

/-- There is neither a `bool` nor a `Record` in the type. -/
def MessageType.exact : MessageType → Bool
  | .produceRequest => false
  | .fetchResponse => false
  | .requestVoteResponse => false
  | .controllerHeartbeatResponse => false
  | .brokerHeartbeatResponse => false
  | _ => true

/-- A flag is read from any byte. -/
example : decodeBrokerHeartbeatResponse.run ⟨[2], 0⟩ = .ok ({ alive := true }, ⟨[], 1⟩) := rfl

theorem MessageType.delimits (t : MessageType) {m : t.codec.Message} (h : t.codec.Fits m) :
    Delimits t.codec.decode (t.codec.encode m) m := by
  cases t with
  | produceRequest => exact produceRequest_delimits h
  | produceResponse => exact produceResponse_delimits h
  | fetchRequest => exact fetchRequest_delimits h
  | fetchResponse => exact fetchResponse_delimits h
  | replicaFetchRequest => exact replicaFetchRequest_delimits h
  | metadataRequest => exact metadataRequest_delimits h
  | metadataResponse => exact metadataResponse_delimits h
  | createTopicRequest => exact createTopicRequest_delimits h
  | createTopicResponse => exact createTopicResponse_delimits h
  | findCoordinatorRequest => exact findCoordinatorRequest_delimits h
  | findCoordinatorResponse => exact findCoordinatorResponse_delimits h
  | joinGroupRequest => exact joinGroupRequest_delimits h
  | joinGroupResponse => exact joinGroupResponse_delimits h
  | syncGroupRequest => exact syncGroupRequest_delimits h
  | syncGroupResponse => exact syncGroupResponse_delimits h
  | heartbeatRequest => exact heartbeatRequest_delimits h
  | leaveGroupRequest => exact leaveGroupRequest_delimits h
  | commitOffsetRequest => exact commitOffsetRequest_delimits h
  | fetchOffsetRequest => exact fetchOffsetRequest_delimits h
  | fetchOffsetResponse => exact fetchOffsetResponse_delimits m
  | requestVoteRequest => exact requestVoteRequest_delimits m
  | requestVoteResponse => exact requestVoteResponse_delimits m
  | controllerHeartbeatRequest => exact controllerHeartbeatRequest_delimits m
  | controllerHeartbeatResponse => exact controllerHeartbeatResponse_delimits m
  | brokerHeartbeatRequest => exact brokerHeartbeatRequest_delimits m
  | brokerHeartbeatResponse => exact brokerHeartbeatResponse_delimits m
  | leaderAndISRRequest => exact leaderAndISRRequest_delimits h
  | isrUpdateRequest => exact isrUpdateRequest_delimits h
  | heartbeatResponse | leaveGroupResponse | commitOffsetResponse | leaderAndISRResponse
  | isrUpdateResponse => exact errorResponse_delimits m

theorem MessageType.canonical (t : MessageType) (h : t.exact = true) :
    Canonical t.codec.decode t.codec.encode := by
  cases t with
  | produceRequest | fetchResponse | requestVoteResponse | controllerHeartbeatResponse
  | brokerHeartbeatResponse => cases h
  | produceResponse => exact produceResponse_canonical
  | fetchRequest => exact fetchRequest_canonical
  | replicaFetchRequest => exact replicaFetchRequest_canonical
  | metadataRequest => exact metadataRequest_canonical
  | metadataResponse => exact metadataResponse_canonical
  | createTopicRequest => exact createTopicRequest_canonical
  | createTopicResponse => exact createTopicResponse_canonical
  | findCoordinatorRequest => exact findCoordinatorRequest_canonical
  | findCoordinatorResponse => exact findCoordinatorResponse_canonical
  | joinGroupRequest => exact joinGroupRequest_canonical
  | joinGroupResponse => exact joinGroupResponse_canonical
  | syncGroupRequest => exact syncGroupRequest_canonical
  | syncGroupResponse => exact syncGroupResponse_canonical
  | heartbeatRequest => exact heartbeatRequest_canonical
  | leaveGroupRequest => exact leaveGroupRequest_canonical
  | commitOffsetRequest => exact commitOffsetRequest_canonical
  | fetchOffsetRequest => exact fetchOffsetRequest_canonical
  | fetchOffsetResponse => exact fetchOffsetResponse_canonical
  | requestVoteRequest => exact requestVoteRequest_canonical
  | controllerHeartbeatRequest => exact controllerHeartbeatRequest_canonical
  | brokerHeartbeatRequest => exact brokerHeartbeatRequest_canonical
  | leaderAndISRRequest => exact leaderAndISRRequest_canonical
  | isrUpdateRequest => exact isrUpdateRequest_canonical
  | heartbeatResponse | leaveGroupResponse | commitOffsetResponse | leaderAndISRResponse
  | isrUpdateResponse => exact errorResponse_canonical

/-- Each message is read back with what follows it left, no part of it is a message, and
the exact types are read from their own bytes only. -/
theorem message_round_trip (t : MessageType) :
    (∀ m, t.codec.Fits m →
      (∀ s pos, t.codec.decode.run ⟨t.codec.encode m ++ s, pos⟩ =
        .ok (m, ⟨s, pos + (t.codec.encode m).length⟩)) ∧
      ∀ short pos, short <+: t.codec.encode m → short ≠ t.codec.encode m →
        ∃ e : DecodeError, t.codec.decode.run ⟨short, pos⟩ = .error e) ∧
    (t.exact = true → ∀ (r : Reader) m next, t.codec.decode.run r = .ok (m, next) →
      r.rest = t.codec.encode m ++ next.rest) := by
  constructor
  · intro m hfits
    have h := t.delimits hfits
    exact ⟨h.reads, h.starves⟩
  · intro hexact r m next hrun
    exact t.canonical hexact r m next hrun

end MiniKafka.Protocol
