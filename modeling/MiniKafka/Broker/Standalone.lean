import MiniKafka.Broker.Dispatch
import MiniKafka.Broker.FetchOffsets
import MiniKafka.Storage.ServedStore

/-!
# A broker without peers

The handlers of a broker that runs in the standalone mode, over the stores of its partitions
and the files of its topics. It opens a partition when it is first asked for it, and a topic
that nobody created has one partition. Different keys have different directories here, and
different topics different files, as they have when the topics are ordinary names. A fetch locks
its partition twice, for the records and then for the high watermark, and others may come in
between.
-/

namespace MiniKafka.Broker

open Cluster Common Foundations Net Protocol Storage

/-- The arguments of `Broker::Broker` that its answers carry. -/
structure BrokerConfig where
  id : BrokerId
  host : Bytes
  port : UInt16

/-- The default of `Partition::Partition`. -/
def kMaxSegBytes : UInt32 := (128 : UInt32) <<< 20

/-- A fetch that has read its records, and not yet the high watermark. -/
structure PendingFetch where
  key : TopicPartition
  fetchOffset : UInt64
  records : List Record
  deriving DecidableEq

structure Standalone (γ : Type) where
  /-- `partitions_`, with the directories of those that are not open. -/
  stores : TopicPartition → Store := fun _ => .stopped []
  /-- `topics_`. -/
  topics : Topic → Option UInt32 := fun _ => none
  /-- The files `.partitions`. -/
  partitionsFiles : Topic → Option Bytes := fun _ => none
  groupCoordinator : γ
  /-- The readings of the clock, and how many appends have taken one. -/
  clock : Nat → UInt64
  readings : Nat := 0
  fetching : List PendingFetch := []

namespace Standalone

variable {γ : Type} (cfg : BrokerConfig) (s : Standalone γ)

def setStore (key : TopicPartition) (store : Store) : Standalone γ :=
  { s with stores := Function.update s.stores key store }

def setPartitionsFile (topic : Topic) (file : Bytes) : Standalone γ :=
  { s with partitionsFiles := Function.update s.partitionsFiles topic (some file) }

def getOrCreatePartition (key : TopicPartition) : Partition × Standalone γ :=
  match s.stores key with
  | .running p => (p, s)
  | .stopped dir =>
      let p := Partition.recover kMaxSegBytes dir
      (p, s.setStore key (.running p))

/-- What `in >> count` makes of the file, where a 0 counts as nothing. -/
def readCount (file : Bytes) : UInt32 :=
  let count := (TextStream.number ⟨file, false, false⟩ getU32 1).1
  if count = 0 then 1 else count

def partitionCountFor (topic : Topic) : UInt32 × Standalone γ :=
  match s.topics topic with
  | some count => (count, s)
  | none =>
      let count := ((s.partitionsFiles topic).map readCount).getD 1
      (count, { s with topics := Function.update s.topics topic (some count) })

def handleProduce (req : ProduceRequest) : ProduceResponse × Standalone γ :=
  let key := (req.topic, req.partitionId)
  let (p, s) := s.getOrCreatePartition key
  let (p, base) := p.append req.records (s.clock s.readings)
  ({ errorCode := .none, baseOffset := UInt64.ofInt base, leaderHost := [], leaderPort := 0 },
    { s.setStore key (.running p) with readings := s.readings + 1 })

def fetch (req : FetchRequest) : FetchResponse × Standalone γ :=
  let (p, s) := s.getOrCreatePartition (req.topic, req.partitionId)
  (handleFetch cfg.id none p req, s)

def replicate (req : ReplicaFetchRequest) : FetchResponse × Standalone γ :=
  let (p, s) := s.getOrCreatePartition (req.topic, req.partitionId)
  (handleReplicate cfg.id none p p.hwm req, s)

/-- The first section of `handle_fetch`. -/
def readFetch (req : FetchRequest) : PendingFetch × Standalone γ :=
  let key := (req.topic, req.partitionId)
  let (p, s) := s.getOrCreatePartition key
  let read := ⟨key, req.fetchOffset, p.read (toI64 req.fetchOffset) req.maxBytes⟩
  (read, { s with fetching := read :: s.fetching })

/-- The first section of `handle_replicate`. -/
def readReplica (req : ReplicaFetchRequest) : PendingFetch × Standalone γ :=
  let key := (req.topic, req.partitionId)
  let (p, s) := s.getOrCreatePartition key
  let read := ⟨key, req.fetchOffset, p.readUpToLeo (toI64 req.fetchOffset) req.maxBytes⟩
  (read, { s with fetching := read :: s.fetching })

/-- The second section of both, at the partition that was opened in the first. -/
def answerFetch (read : PendingFetch) : Option (FetchResponse × Standalone γ) :=
  match s.stores read.key with
  | .running p =>
      if read ∈ s.fetching then
        some ({ errorCode := .none
                highWatermark := UInt64.ofInt p.hwm
                records := read.records
                leaderHost := []
                leaderPort := 0 }, { s with fetching := s.fetching.erase read })
      else none
  | .stopped _ => none

def handleMetadata (req : MetadataRequest) : MetadataResponse × Standalone γ :=
  let (partitionCount, s) := s.partitionCountFor req.topic
  ({ errorCode := .none
     partitions := (List.range partitionCount.toNat).map fun p =>
       ⟨UInt32.ofNat p, cfg.id, cfg.host, cfg.port.toUInt32⟩ }, s)

/-- Only a topic without its file is created, whether it was used before or not. -/
def handleCreateTopic (req : CreateTopicRequest) : CreateTopicResponse × Standalone γ :=
  ({ errorCode := .none, controllerId := 0, controllerHost := [], controllerPort := 0 },
    if (s.partitionsFiles req.topic).isSome then s
    else { s.setPartitionsFile req.topic (decimal req.numPartitions.toNat) with
      topics := Function.update s.topics req.topic (some req.numPartitions) })

theorem stores_getOrCreatePartition (key : TopicPartition) :
    (s.getOrCreatePartition key).2.stores key = .running (s.getOrCreatePartition key).1 := by
  unfold getOrCreatePartition
  split
  · next p hp => exact hp
  · exact Function.update_self _ _ _

/-- When nobody comes between the sections, the answer is about one state. -/
theorem answerFetch_readFetch (req : FetchRequest) :
    (s.readFetch req).2.answerFetch (s.readFetch req).1 = some (s.fetch cfg req) := by
  have hopened := s.stores_getOrCreatePartition (req.topic, req.partitionId)
  simp only [readFetch, answerFetch, hopened, List.mem_cons_self, if_true, List.erase_cons_head]
  rfl

theorem answerFetch_readReplica (req : ReplicaFetchRequest) :
    (s.readReplica req).2.answerFetch (s.readReplica req).1 = some (s.replicate cfg req) := by
  have hopened := s.stores_getOrCreatePartition (req.topic, req.partitionId)
  simp only [readReplica, answerFetch, hopened, List.mem_cons_self, if_true,
    List.erase_cons_head]
  rfl

/-- A call of the group coordinator. -/
def withGroups {α : Type} (call : γ → Except NetError α × γ) :
    Except NetError α × Standalone γ :=
  let (answer, groups) := call s.groupCoordinator
  (answer, { s with groupCoordinator := groups })

end Standalone

/-- The handlers of a broker without peers; `groups` are the calls of its coordinator. -/
def standalone {γ : Type} (cfg : BrokerConfig) (groups : Service γ) : Service (Standalone γ)
  | .produce, req, s =>
      let (resp, s) := s.handleProduce req
      (.ok resp, s)
  | .fetch, req, s =>
      let (resp, s) := s.fetch cfg req
      (.ok resp, s)
  | .metadata, req, s =>
      let (resp, s) := s.handleMetadata cfg req
      (.ok resp, s)
  | .createTopic, req, s =>
      let (resp, s) := s.handleCreateTopic req
      (.ok resp, s)
  | .replicate, req, s =>
      let (resp, s) := s.replicate cfg req
      (.ok resp, s)
  | .findCoordinator, _, s =>
      (.ok ({ errorCode := .none, coordinatorId := cfg.id, host := cfg.host,
              port := cfg.port.toUInt32 } : FindCoordinatorResponse), s)
  | .joinGroup, req, s => s.withGroups (groups .joinGroup req)
  | .syncGroup, req, s => s.withGroups (groups .syncGroup req)
  | .heartbeat, req, s => s.withGroups (groups .heartbeat req)
  | .leaveGroup, req, s => s.withGroups (groups .leaveGroup req)
  | .commitOffset, req, s => s.withGroups (groups .commitOffset req)
  | .fetchOffset, req, s => s.withGroups (groups .fetchOffset req)
  | .requestVote, req, s => (.ok ⟨req.term, false⟩, s)
  | .controllerHeartbeat, req, s => (.ok ⟨req.term, false⟩, s)
  | .brokerHeartbeat, _, s => (.ok (⟨false⟩ : BrokerHeartbeatResponse), s)
  | .leaderAndISR, _, s => (.ok (⟨.unknownRequestType⟩ : ErrorResponse), s)
  | .isrUpdate, _, s => (.ok (⟨.unknownRequestType⟩ : ErrorResponse), s)

def oneBroker : BrokerConfig := ⟨1, [104], 9092⟩

/-- A coordinator that refuses every call. -/
def noGroups : Service Unit := fun _ _ s => (.error (.runtime "no groups"), s)

/-- A call that is answered, and one whose handler throws. -/
def metadataThenJoin : List Call :=
  [⟨.metadata, 7, (⟨[116]⟩ : MetadataRequest)⟩,
    ⟨.joinGroup, 8, (⟨[103], [116], 10000⟩ : Group.JoinGroupRequest)⟩]

theorem calls_replied_standalone :
    ∃ handled replies back,
      Replied (standalone oneBroker noGroups) { groupCoordinator := (), clock := UInt64.ofNat }
        (session (handle (standalone oneBroker noGroups))
          ⟨requestStream (metadataThenJoin.map Call.frame), [.upTo 2, .interrupted], none⟩
          ⟨[], [.upTo 0]⟩ { groupCoordinator := (), clock := UInt64.ofNat }).state
        metadataThenJoin handled replies back ∧
      handled = metadataThenJoin ∧ replies.map Reply.correlationId = [7] := by
  have fits : ∀ c ∈ metadataThenJoin, c.Fits := by
    intro c hc
    simp only [metadataThenJoin, List.mem_cons, List.not_mem_nil, or_false] at hc
    rcases hc with rfl | rfl
    · exact ⟨(by decide : StringFits [116]), by decide⟩
    · exact ⟨⟨by decide, by decide⟩, by decide⟩
  have small : ∀ r ∈ (answerEach (serveCall (standalone oneBroker noGroups)) metadataThenJoin
      { groupCoordinator := (), clock := UInt64.ofNat }).1,
      (responseBody r.frame).length < 2 ^ 32 := by
    decide +kernel
  have arrived : requestStream (metadataThenJoin.map Call.frame) <+:
      (writeEach writeRequestFrame (metadataThenJoin.map Call.frame)
        ⟨[], [.interrupted, .upTo 5]⟩).2.sent := by
    decide +kernel
  have reliable : Outgoing.Reliable ⟨[], [.upTo 0]⟩ := by
    intro a ha
    obtain rfl := List.mem_singleton.mp ha
    exact ⟨nofun, nofun⟩
  let served := session (handle (standalone oneBroker noGroups))
    ⟨requestStream (metadataThenJoin.map Call.frame), [.upTo 2, .interrupted], none⟩
    ⟨[], [.upTo 0]⟩ { groupCoordinator := (), clock := UInt64.ofNat }
  have returned : (Incoming.mk served.out.sent [.upTo 4] none).coming <+: served.out.sent :=
    List.prefix_rfl
  obtain ⟨handled, replies, hreplied, hall⟩ := calls_replied fits small arrived rfl returned
  obtain ⟨rfl, rfl⟩ := hall rfl reliable rfl
  exact ⟨_, _, _, hreplied, rfl, by decide +kernel⟩

end MiniKafka.Broker
