import MiniKafka.Broker.DroppedPartitions
import MiniKafka.Foundations.Run

/-!
# Reconciles that overlap

Each update of the assignments is followed by a call of `reconcile_replication` in the
same thread. The call copies the assignments first and applies the copy later, under
`followersMu_`, and the locks are free in between. So a call can apply a copy that
another update has overtaken. The state a broker settles in is that of the copy that was
applied last.
-/

namespace MiniKafka.Broker

open Cluster Foundations Replication Storage

/-- Where a thread stands: it has updated the assignments and owes a reconcile, or it has
copied them. -/
inductive CallPhase
  | idle
  | due
  | snapshot (assignments : Assignments)

structure ReconcileState where
  assignments : Assignments
  replication : ReplicationState
  calls : Nat → CallPhase

/-- `on_replica_fetch` for a partition that may be registered. -/
def ReplicationState.onReplicaFetch (selfBrokerId : BrokerId) (s : ReplicationState)
    (k : TopicPartition) (replicaId : BrokerId) (fetchOffset : Nat) (now : UInt64) :
    ReplicationState × Option (List BrokerId) :=
  match s.isrManager[k]? with
  | none => (s, none)
  | some st =>
      { s with
        isrManager := s.isrManager.insert k (st.recordFetch replicaId fetchOffset now) }.recompute
          selfBrokerId k now

/-- Leader and replicas of each partition agree. -/
def SameParts (a a' : Assignments) : Prop :=
  ∀ k : TopicPartition, a'[k]?.map (fun pa => (pa.leaderId, pa.replicas)) =
    a[k]?.map fun pa => (pa.leaderId, pa.replicas)

/-- What a reconcile decides is left alone: fetchers, led partitions, and for each
registered partition its replicas. -/
structure KeepsReconciled (r r' : ReplicationState) : Prop where
  followers : r'.followers = r.followers
  leading : r'.leadingPartitions = r.leadingPartitions
  tracked (k : TopicPartition) :
    r'.isrManager[k]?.map PartitionState.replicas = r.isrManager[k]?.map PartitionState.replicas

section Steps

variable {selfBrokerId : BrokerId} {addressOf : AddressOf} {s u : ReconcileState}
  {r : ReplicationState} {e : ReconcileEvent} {t : Nat} {a a' : Assignments} {k : TopicPartition}

theorem SameParts.refl : SameParts a a := fun _ => rfl

theorem KeepsReconciled.refl : KeepsReconciled r r := ⟨rfl, rfl, fun _ => rfl⟩

/-- Storing another state of a registered partition with the same replicas. -/
theorem KeepsReconciled.insert {st st' : PartitionState} {partitions : TopicPartition → ReplicaLog}
    (hst : r.isrManager[k]? = some st) (hreplicas : st'.replicas = st.replicas) :
    KeepsReconciled r
      { r with partitions := partitions, isrManager := r.isrManager.insert k st' } := by
  refine ⟨rfl, rfl, ?_⟩
  intro k'
  change (r.isrManager.insert k st')[k']?.map _ = _
  by_cases h : k = k'
  · rw [← h, Std.ExtTreeMap.getElem?_insert_self, hst, Option.map_some, Option.map_some, hreplicas]
  · rw [getElem?_insert_of_ne h]

theorem KeepsReconciled.trans {r' r'' : ReplicationState} (h : KeepsReconciled r r')
    (h' : KeepsReconciled r' r'') : KeepsReconciled r r'' :=
  ⟨h'.followers.trans h.followers, h'.leading.trans h.leading,
    fun k => (h'.tracked k).trans (h.tracked k)⟩

end Steps

end MiniKafka.Broker
