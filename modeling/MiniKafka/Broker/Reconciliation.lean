import MiniKafka.Cluster.Assignments
import MiniKafka.Common.Codec
import MiniKafka.Foundations.Table
import MiniKafka.Replication.IsrManager

/-!
# The reconciliation of a broker's replication

`reconcile_replication` goes through a snapshot of the assignments. It registers the
partitions this broker leads with `IsrManager`, keeps a fetcher for each partition it
follows and drops the other fetchers. What it does for a partition depends on the
assignment of that partition and on what the broker held for it before. A partition the
broker no longer leads is taken from `IsrManager` only if the broker follows it now.
-/

namespace MiniKafka.Broker

open Cluster Common Foundations Replication Storage

structure Address where
  host : Bytes
  port : UInt16
  deriving DecidableEq

/-- `address_of`, from the peers table. -/
abbrev AddressOf := BrokerId → Option Address

/-- The puller of one partition, by what it was constructed with. -/
structure FollowerFetcher where
  topic : Topic
  partitionId : UInt32
  selfBrokerId : BrokerId
  leaderHost : Bytes
  leaderPort : UInt16
  deriving DecidableEq

namespace FollowerFetcher

def leader (f : FollowerFetcher) : Address := ⟨f.leaderHost, f.leaderPort⟩

/-- A new fetcher of a partition. -/
def pulling (selfBrokerId : BrokerId) (k : TopicPartition) (leader : Address) :
    FollowerFetcher :=
  ⟨k.1, k.2, selfBrokerId, leader.host, leader.port⟩

/-- `needsRecreate`. -/
def NeedsRecreate (old : Option FollowerFetcher) (addr : Address) : Prop :=
  match old with
  | none => True
  | some f => f.leaderHost ≠ addr.host ∨ f.leaderPort ≠ addr.port

instance (old : Option FollowerFetcher) (addr : Address) : Decidable (NeedsRecreate old addr) :=
  match old with
  | none => .isTrue trivial
  | some f => inferInstanceAs (Decidable (f.leaderHost ≠ addr.host ∨ f.leaderPort ≠ addr.port))

end FollowerFetcher

/-- What a broker in a cluster keeps about its partitions. -/
structure ReplicationState where
  /-- What `get_or_create_partition` returns for each key. -/
  partitions : TopicPartition → ReplicaLog
  /-- The partitions registered with `IsrManager`. -/
  isrManager : Std.ExtTreeMap TopicPartition PartitionState
  followers : Std.ExtTreeMap TopicPartition FollowerFetcher
  leadingPartitions : Std.ExtTreeSet TopicPartition

/-- The loop of `reconcile_replication` between two iterations. -/
structure ReconcilePass extends ReplicationState where
  stillRelevant : Std.ExtTreeSet TopicPartition
  newLeading : Std.ExtTreeSet TopicPartition

namespace ReconcilePass

variable (pass : ReconcilePass) (k : TopicPartition)

/-- The branch of the loop for a partition this broker leads. A partition it did not lead
before raises its high watermark to its log end. -/
def lead (replicas : List BrokerId) : ReconcilePass :=
  let partition := pass.partitions k
  { partitions :=
      if k ∈ pass.leadingPartitions then pass.partitions
      else Function.update pass.partitions k
        (partition.setHighWatermark partition.logEndOffset)
    isrManager := pass.isrManager.insert k (.setLeading pass.isrManager[k]? replicas)
    followers := pass.followers.erase k
    leadingPartitions := pass.leadingPartitions
    stillRelevant := pass.stillRelevant.insert k
    newLeading := pass.newLeading.insert k }

/-- The branch for a partition it follows. Without an address of the leader the loop goes
on after `stop_leading`. -/
def follow (selfBrokerId : BrokerId) (leader : Option Address) : ReconcilePass :=
  { pass with
    stillRelevant := pass.stillRelevant.insert k
    isrManager := pass.isrManager.erase k
    followers :=
      match leader with
      | none => pass.followers
      | some addr =>
          if FollowerFetcher.NeedsRecreate pass.followers[k]? addr then
            pass.followers.insert k (.pulling selfBrokerId k addr)
          else pass.followers }

/-- After the loop: fetchers of partitions it did not touch are dropped. -/
def finish : ReplicationState where
  partitions := pass.partitions
  isrManager := pass.isrManager
  followers := pass.followers.filter fun k _ => k ∈ pass.stillRelevant
  leadingPartitions := pass.newLeading

end ReconcilePass

namespace ReplicationState

variable (selfBrokerId : BrokerId) (addressOf : AddressOf)

/-- What `recompute` does for a partition in a sweep, after a fetch or after an append, and
the in-sync set it reports. A partition that is not registered is not looked at. -/
def recompute (s : ReplicationState) (k : TopicPartition) (now : UInt64) :
    ReplicationState × Option (List BrokerId) :=
  match s.isrManager[k]? with
  | none => (s, none)
  | some st =>
      let partition := s.partitions k
      let r := st.recompute selfBrokerId partition.logEndOffset now
      ({ s with
          partitions := Function.update s.partitions k (partition.setHighWatermark r.hwm)
          isrManager := s.isrManager.insert k { st with isr := r.isr } },
        if r.isr = st.isr then none else some r.isr)

end ReplicationState

/-- What a broker keeps about one partition. -/
structure PartitionReplication where
  log : ReplicaLog
  /-- What `IsrManager` has registered. -/
  tracked : Option PartitionState
  follower : Option FollowerFetcher
  /-- The partition is in `leadingPartitions_`. -/
  leading : Bool

namespace PartitionReplication

variable (selfBrokerId : BrokerId) (addressOf : AddressOf)

/-- The fetcher of a followed partition. One that already pulls from the leader's address
is kept, and without an address nothing changes. -/
def follow (k : TopicPartition) (leader : Option Address) (old : Option FollowerFetcher) :
    Option FollowerFetcher :=
  match leader with
  | none => old
  | some addr =>
      if FollowerFetcher.NeedsRecreate old addr then some (.pulling selfBrokerId k addr) else old

/-- What a reconcile makes of one partition. -/
def reconcile (k : TopicPartition) (assignment : Option PartitionAssignment)
    (v : PartitionReplication) : PartitionReplication :=
  match assignment with
  | none => { v with follower := none, leading := false }
  | some pa =>
      if pa.leaderId = selfBrokerId then
        { log := if v.leading then v.log else v.log.setHighWatermark v.log.logEndOffset
          tracked := some (.setLeading v.tracked pa.replicas)
          follower := none
          leading := true }
      else if selfBrokerId ∈ pa.replicas then
        { v with
          tracked := none
          follower := follow selfBrokerId k (addressOf pa.leaderId) v.follower
          leading := false }
      else { v with follower := none, leading := false }

end PartitionReplication

/-- What the loop holds about one partition. -/
structure EntryView extends PartitionReplication where
  stillRelevant : Bool
  newLeading : Bool

def ReplicationState.at (s : ReplicationState) (k : TopicPartition) : PartitionReplication :=
  ⟨s.partitions k, s.isrManager[k]?, s.followers[k]?, s.leadingPartitions.contains k⟩

def ReconcilePass.at (pass : ReconcilePass) (k : TopicPartition) : EntryView :=
  ⟨pass.toReplicationState.at k, pass.stillRelevant.contains k, pass.newLeading.contains k⟩

/-- An iteration of the loop, on the partition it is about. -/
def EntryView.entry (selfBrokerId : BrokerId) (addressOf : AddressOf) (k : TopicPartition)
    (pa : PartitionAssignment) (v : EntryView) : EntryView :=
  if pa.leaderId = selfBrokerId then
    { v with
      log := if v.leading then v.log else v.log.setHighWatermark v.log.logEndOffset
      tracked := some (.setLeading v.tracked pa.replicas)
      follower := none
      stillRelevant := true
      newLeading := true }
  else if selfBrokerId ∈ pa.replicas then
    { v with
      tracked := none
      follower := PartitionReplication.follow selfBrokerId k (addressOf pa.leaderId) v.follower
      stillRelevant := true }
  else v

section Loop

variable {selfBrokerId : BrokerId} {addressOf : AddressOf} {pass : ReconcilePass}
  {s : ReplicationState} {a : Assignments} {k k' : TopicPartition} {pa : PartitionAssignment}

end Loop

end MiniKafka.Broker
