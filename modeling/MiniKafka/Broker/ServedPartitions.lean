import MiniKafka.Broker.SettledReconciles
import MiniKafka.Cluster.AssignmentsFile

/-!
# The partitions a broker serves

A broker accepts records for every partition its assignments let it lead. It should then
have the partition registered with its replicas, and it should pull every partition it
follows. A reconcile that applies the current assignments brings this about. The
constructor loads the assignments of an earlier process without a reconcile, so the
broker serves none of the partitions in its file until the next update arrives.
-/

namespace MiniKafka.Broker

open Cluster Common Foundations Replication Storage

/-- What a broker accepts records for it tracks, and what it follows it pulls. -/
structure ReconcileState.Serves (selfBrokerId : BrokerId) (addressOf : AddressOf)
    (s : ReconcileState) : Prop where
  tracked (k : TopicPartition) (pa : PartitionAssignment) : s.assignments[k]? = some pa →
    pa.leaderId = selfBrokerId →
      ∃ st, s.replication.isrManager[k]? = some st ∧ st.replicas = pa.replicas
  pulled (k : TopicPartition) (pa : PartitionAssignment) : s.assignments[k]? = some pa →
    pa.leaderId ≠ selfBrokerId → selfBrokerId ∈ pa.replicas →
      ∃ f, s.replication.followers[k]? = some f ∧ addressOf pa.leaderId = some f.leader

variable {selfBrokerId : BrokerId} {addressOf : AddressOf} {s u : ReconcileState}
  {r : ReplicationState} {a current : Assignments} {calls : Nat → CallPhase}
  {partitions : TopicPartition → ReplicaLog}

/-- Steps that leave alone what reconciles are about keep a broker serving. -/
theorem ReconcileState.Serves.keeps (h : s.Serves selfBrokerId addressOf)
    (hparts : SameParts s.assignments u.assignments)
    (hkeeps : KeepsReconciled s.replication u.replication) : u.Serves selfBrokerId addressOf where
  tracked := by
    intro k pa' hpa' hleader
    obtain ⟨pa, hpa, heq, hreplicas⟩ := hparts.symm.getElem?_eq_some hpa'
    obtain ⟨st, hst, hst'⟩ := h.tracked k pa hpa (heq.trans hleader)
    have hmap := hkeeps.tracked k
    rw [hst, Option.map_some] at hmap
    obtain ⟨st', hsome, hsame⟩ := Option.map_eq_some_iff.mp hmap
    exact ⟨st', hsome, (hsame.trans hst').trans hreplicas⟩
  pulled := by
    intro k pa' hpa' hne hmem
    obtain ⟨pa, hpa, heq, hreplicas⟩ := hparts.symm.getElem?_eq_some hpa'
    rw [← heq] at hne ⊢
    rw [← hreplicas] at hmem
    rw [hkeeps.followers]
    exact h.pulled k pa hpa hne hmem

end MiniKafka.Broker
