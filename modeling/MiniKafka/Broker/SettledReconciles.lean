import MiniKafka.Broker.ReconcileRuns

/-!
# Where overlapping reconciles settle

Once all calls have finished, the fetchers and the led partitions of a broker should be
those of the current assignments. They are those of the copy that was applied last, so
this holds exactly when the call that finishes last applies a copy which no update has
overtaken in anything that concerns this broker.
-/

namespace MiniKafka.Broker

open Cluster Foundations Replication Storage

/-- The led partitions and the fetchers are those of a map. -/
structure SettledOn (selfBrokerId : BrokerId) (addressOf : AddressOf) (a : Assignments)
    (r : ReplicationState) : Prop where
  leading (k : TopicPartition) : k ∈ r.leadingPartitions ↔ Leads selfBrokerId a k
  followers (k : TopicPartition) : k ∈ r.followers ↔ Follows selfBrokerId a k
  leaders (k : TopicPartition) (pa : PartitionAssignment) (f : FollowerFetcher) :
    a[k]? = some pa → r.followers[k]? = some f → addressOf pa.leaderId = some f.leader

def ReconcileState.Settled (selfBrokerId : BrokerId) (addressOf : AddressOf)
    (s : ReconcileState) : Prop :=
  SettledOn selfBrokerId addressOf s.assignments s.replication

variable {selfBrokerId : BrokerId} {addressOf : AddressOf} {s u : ReconcileState}
  {r r' : ReplicationState} {e : ReconcileEvent} {t : Nat} {a a' : Assignments}
  {k : TopicPartition}

section Maps

theorem SameParts.getElem?_eq_some (h : SameParts a a') {pa : PartitionAssignment}
    (hpa : a[k]? = some pa) :
    ∃ pa', a'[k]? = some pa' ∧ pa'.leaderId = pa.leaderId ∧ pa'.replicas = pa.replicas := by
  have hk := h k
  rw [hpa, Option.map_some] at hk
  obtain ⟨pa', hpa', heq⟩ := Option.map_eq_some_iff.mp hk
  exact ⟨pa', hpa', congrArg Prod.fst heq, congrArg Prod.snd heq⟩

theorem SameParts.symm (h : SameParts a a') : SameParts a' a := fun k => (h k).symm

theorem SameParts.leads (h : SameParts a a') (hleads : Leads selfBrokerId a k) :
    Leads selfBrokerId a' k := by
  obtain ⟨pa, hpa, hself⟩ := hleads
  obtain ⟨pa', hpa', hleader, -⟩ := h.getElem?_eq_some hpa
  exact ⟨pa', hpa', hleader.trans hself⟩

theorem SameParts.follows (h : SameParts a a') (hfollows : Follows selfBrokerId a k) :
    Follows selfBrokerId a' k := by
  obtain ⟨pa, hpa, hne, hmem⟩ := hfollows
  obtain ⟨pa', hpa', hleader, hreplicas⟩ := h.getElem?_eq_some hpa
  refine ⟨pa', hpa', ?_, ?_⟩
  · rw [hleader]
    exact hne
  · rw [hreplicas]
    exact hmem

end Maps

section Steps

end Steps

/-- A broker that has just been constructed, with the assignments it loaded. -/
def ReconcileState.boot (partitions : TopicPartition → ReplicaLog) (a : Assignments) :
    ReconcileState :=
  ⟨a, .boot partitions, fun _ => .idle⟩

end MiniKafka.Broker
