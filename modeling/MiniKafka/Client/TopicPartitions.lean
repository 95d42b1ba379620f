import MiniKafka.Broker.Peers
import MiniKafka.Client.Partitioner
import MiniKafka.Cluster.TopicCreation
import MiniKafka.Group.RangeAssignment
import MiniKafka.Protocol.Requests

/-!
# The partitions that clients know

In the cluster mode clients learn the partitions of a topic from Metadata, and use their number
only: a keyed producer takes a hash modulo this number, and the leader of a group splits the
range below it. In the map of a controller that makes sense, as the partitions of a topic are
always those below the largest number a CreateTopic has asked for.
-/

namespace MiniKafka.Client

open Broker Cluster Common Foundations MiniKafka.Group Protocol

/-- `assignments_for_topic`. -/
def assignmentsForTopic (a : Assignments) (topic : Topic) :
    List (UInt32 × PartitionAssignment) :=
  a.toList.filterMap fun (key, pa) => if key.1 = topic then some (key.2, pa) else none

/-- `handle_metadata` in the cluster mode. -/
def clusterMetadata (peers : PeersTable) (a : Assignments) (req : MetadataRequest) :
    MetadataResponse :=
  let assignments := assignmentsForTopic a req.topic
  if assignments = [] then { errorCode := .unknownTopic, partitions := [] }
  else
    { errorCode := .none
      partitions := assignments.map fun (p, pa) =>
        let addr := peers[pa.leaderId]?
        { partitionId := p
          leaderId := pa.leaderId
          leaderHost := (addr.map Address.host).getD []
          leaderPort := (addr.map fun a => a.port.toUInt32).getD 0 } }

/-- The number of partitions that a call writes for a topic. -/
def writes (topic : Topic) : ControllerCall → Nat
  | .createTopic true alive topic' numPartitions _ =>
      if topic' = topic ∧ alive.ids ≠ [] then numPartitions.toNat else 0
  | _ => 0

/-- The largest number of partitions that was asked for a topic. -/
def partitionsCreated (topic : Topic) (visits : List (Assignments × ControllerCall)) : Nat :=
  visits.foldl (fun count v => max count (writes topic v.2)) 0

section Domain

variable {a a' : Assignments} {unclean : Bool} {topic : Topic} {call : ControllerCall}
  {visits : List (Assignments × ControllerCall)}

theorem partitionsCreated_snoc :
    partitionsCreated topic (visits ++ [(a, call)]) =
      max (partitionsCreated topic visits) (writes topic call) := by
  simp only [partitionsCreated, List.foldl_append, List.foldl_cons, List.foldl_nil]

/-- A call adds the partitions that it writes, and removes none. -/
theorem assignmentStep_isSome (h : assignmentStep unclean a call = some a') (p : UInt32) :
    (a'[((topic, p) : TopicPartition)]?).isSome ↔
      (a[((topic, p) : TopicPartition)]?).isSome ∨ p.toNat < writes topic call := by
  cases call with
  | createTopic isLeader alive topic' numPartitions replicationFactor =>
      simp only [assignmentStep] at h
      split at h
      · next result d hcreate =>
          obtain rfl := Option.some.inj h
          cases isLeader with
          | false => simp [Assignments.createTopic] at hcreate
          | true =>
              obtain ⟨nonempty, hget⟩ := createTopic_getElem? hcreate
              rw [hget]
              by_cases heq : topic = topic'
              · subst heq
                simp only [true_and, writes, nonempty, ne_eq, not_false_eq_true, and_self, if_true,
                  ← UInt32.lt_iff_toNat_lt]
                split
                · next hlt => simp [hlt]
                · next hge => simp [hge]
              · simp [writes, heq, Ne.symm heq]
      · next hnone =>
          obtain rfl := Option.some.inj h
          have hwrites : writes topic (.createTopic isLeader alive topic' numPartitions
              replicationFactor) = 0 := by
            cases isLeader with
            | false => rfl
            | true =>
                have hempty : alive.ids = [] := by
                  by_contra hne
                  simp [Assignments.createTopic, hne] at hnone
                simp [writes, hempty]
          simp [hwrites]
  | updateIsr isLeader req =>
      simp only [assignmentStep] at h
      split at h
      · next d hupdate =>
          obtain rfl := Option.some.inj h
          obtain ⟨pa, -, hpa, rfl⟩ := Assignments.updateIsr_eq_some hupdate
          simp only [getElem?_insert_ite, writes, Nat.not_lt_zero, or_false]
          split
          · next heq => simp [← heq, hpa]
          · rfl
      · obtain rfl := Option.some.inj h
        simp [writes]
  | checkPartitionFailover alive =>
      obtain rfl := Option.some.inj h
      simp [Assignments.checkPartitionFailover, writes]

/-- The partitions of a topic are those below the largest number that was asked for. -/
theorem partitions_created (run : Run (assignmentStep unclean) ∅ visits a) (topic : Topic)
    (p : UInt32) : (a[((topic, p) : TopicPartition)]?).isSome ↔
      p.toNat < partitionsCreated topic visits := by
  induction run with
  | refl => simp [partitionsCreated]
  | tail run h ih => rw [assignmentStep_isSome h, ih, partitionsCreated_snoc, lt_max_iff]

theorem partitionsCreated_lt (topic : Topic) (visits : List (Assignments × ControllerCall)) :
    partitionsCreated topic visits < 2 ^ 32 := by
  induction visits using List.reverseRecOn with
  | nil => exact Nat.two_pow_pos 32
  | append_singleton visits v ih =>
      rw [partitionsCreated_snoc]
      refine Nat.max_lt.mpr ⟨ih, ?_⟩
      unfold writes
      split
      · split
        · exact UInt32.toNat_lt _
        · exact Nat.two_pow_pos 32
      · exact Nat.two_pow_pos 32

end Domain

section Listing

variable {a : Assignments} {topic : Topic} {n : Nat} {p : UInt32}

theorem mem_assignmentsForTopic {pa : PartitionAssignment} :
    (p, pa) ∈ assignmentsForTopic a topic ↔ a[((topic, p) : TopicPartition)]? = some pa := by
  simp only [assignmentsForTopic, List.mem_filterMap]
  constructor
  · rintro ⟨⟨key, pa'⟩, hmem, h⟩
    dsimp only at h
    split at h
    · next heq =>
        obtain ⟨rfl, rfl⟩ := Prod.mk.inj (Option.some.inj h)
        subst heq
        exact Std.ExtTreeMap.mem_toList_iff_getElem?_eq_some.mp hmem
    · cases h
  · intro h
    exact ⟨((topic, p), pa), Std.ExtTreeMap.mem_toList_iff_getElem?_eq_some.mpr h, if_pos rfl⟩

/-- The partitions of a topic come in ascending order. -/
theorem assignmentsForTopic_ascending (a : Assignments) (topic : Topic) :
    ((assignmentsForTopic a topic).map Prod.fst).Pairwise (· < ·) := by
  rw [List.pairwise_map, assignmentsForTopic, List.pairwise_filterMap]
  refine Std.ExtTreeMap.ordered_keys_toList.imp ?_
  rintro ⟨⟨t, p⟩, pa⟩ ⟨⟨t', p'⟩, pa'⟩ hless e he e' he'
  dsimp only at hless he he'
  obtain ⟨rfl, hfirst⟩ := Option.ite_none_right_eq_some.mp he
  obtain ⟨rfl, hsecond⟩ := Option.ite_none_right_eq_some.mp he'
  obtain rfl := Option.some.inj hfirst
  obtain rfl := Option.some.inj hsecond
  change (compare t' t').then (compare p p') = .lt at hless
  have hsame : compare t' t' = .eq := Std.ReflCmp.compare_self
  rw [hsame] at hless
  exact Std.compare_eq_lt.mp hless

/-- Where the partitions of a topic are those below a number, they are listed so. -/
theorem assignmentsForTopic_range (hn : n < 2 ^ 32)
    (h : ∀ p : UInt32, (a[((topic, p) : TopicPartition)]?).isSome ↔ p.toNat < n) :
    (assignmentsForTopic a topic).map Prod.fst = (List.range n).map UInt32.ofNat := by
  have hrange : ((List.range n).map UInt32.ofNat).Pairwise (· < ·) := by
    rw [List.pairwise_map]
    refine List.pairwise_lt_range.imp_of_mem ?_
    intro i j hi hj hlt
    rw [List.mem_range] at hi hj
    rw [UInt32.lt_iff_toNat_lt, UInt32.toNat_ofNat_of_lt' (hi.trans hn),
      UInt32.toNat_ofNat_of_lt' (hj.trans hn)]
    exact hlt
  have hmem : ∀ p, p ∈ (assignmentsForTopic a topic).map Prod.fst ↔
      p ∈ (List.range n).map UInt32.ofNat := by
    intro p
    have hlisted : p ∈ (assignmentsForTopic a topic).map Prod.fst ↔
        (a[((topic, p) : TopicPartition)]?).isSome := by
      rw [Option.isSome_iff_exists, List.mem_map]
      constructor
      · rintro ⟨⟨p', pa⟩, hpa, rfl⟩
        exact ⟨pa, mem_assignmentsForTopic.mp hpa⟩
      · rintro ⟨pa, hpa⟩
        exact ⟨(p, pa), mem_assignmentsForTopic.mpr hpa, rfl⟩
    rw [hlisted, h, List.mem_map]
    constructor
    · intro hp
      exact ⟨p.toNat, List.mem_range.mpr hp, UInt32.ofNat_toNat⟩
    · rintro ⟨i, hi, rfl⟩
      rw [List.mem_range] at hi
      rwa [UInt32.toNat_ofNat_of_lt' (hi.trans hn)]
  have hsorted := assignmentsForTopic_ascending a topic
  refine List.Perm.eq_of_pairwise ?_ hsorted hrange ?_
  · intro p q _ _ hlt hgt
    exact absurd hgt (UInt32.lt_asymm hlt)
  · exact (List.perm_ext_iff_of_nodup (hsorted.imp UInt32.ne_of_lt)
      (hrange.imp UInt32.ne_of_lt)).mpr hmem

end Listing

/-- Over any calls of a controller, Metadata lists the partitions below the largest number that
a CreateTopic of the topic has asked for, in their order, and knows no topic for which there was
none. So every key goes to a partition that has a leader, and the members of a group share
exactly the partitions that have one. -/
theorem metadata_lists_partitions {a : Assignments} {unclean : Bool}
    {visits : List (Assignments × ControllerCall)} (peers : PeersTable)
    (run : Run (assignmentStep unclean) ∅ visits a) (topic : Topic) :
    let resp := clusterMetadata peers a ⟨topic⟩
    let count := UInt32.ofNat resp.partitions.length
    resp.partitions.map PartitionMetadata.partitionId =
        (List.range (partitionsCreated topic visits)).map UInt32.ofNat ∧
      resp.errorCode =
        (if partitionsCreated topic visits = 0 then .unknownTopic else .none) ∧
      (resp.errorCode = .none → ∀ key : Bytes,
        (a[((topic, partitionForKey key count) : TopicPartition)]?).isSome) ∧
      ∀ members : List MemberId, members ≠ [] → members.length < 2 ^ 32 → members.Nodup →
        ∀ p : UInt32, (∃ m ∈ members, p ∈ slice (rangeAssignments members count) m) ↔
          (a[((topic, p) : TopicPartition)]?).isSome := by
  intro resp count
  have hcreated := partitions_created run topic
  have hlt := partitionsCreated_lt topic visits
  have hids := assignmentsForTopic_range hlt hcreated
  have hlength : (assignmentsForTopic a topic).length = partitionsCreated topic visits := by
    have hlen := congrArg List.length hids
    simpa using hlen
  have hpartitions : resp.partitions.map PartitionMetadata.partitionId =
      (assignmentsForTopic a topic).map Prod.fst := by
    simp only [resp, clusterMetadata]
    split
    · next hnil => rw [hnil]; rfl
    · rw [List.map_map]; rfl
  have hcount : count.toNat = partitionsCreated topic visits := by
    have hlen := congrArg List.length hpartitions
    rw [List.length_map, List.length_map, hlength] at hlen
    simp only [count, hlen]
    exact UInt32.toNat_ofNat_of_lt' hlt
  have herror : resp.errorCode =
      (if partitionsCreated topic visits = 0 then .unknownTopic else .none) := by
    rw [← hlength]
    simp only [resp, clusterMetadata, List.length_eq_zero_iff]
    split <;> rfl
  refine ⟨hpartitions.trans hids, herror, ?_, ?_⟩
  · intro hnone key
    have hpos : 0 < count.toNat := by
      rw [hcount, Nat.pos_iff_ne_zero]
      intro hzero
      rw [herror, if_pos hzero] at hnone
      cases hnone
    rw [hcreated, ← hcount, partitionForKey, UInt32.toNat_mod]
    exact Nat.mod_lt _ hpos
  · intro members hne hlen nodup p
    rw [rangeAssignments_cover hne hlen nodup, hcreated, UInt32.lt_iff_toNat_lt, hcount]

/-- A topic is created again with fewer partitions, and a leader is replaced. -/
def createdTwice : List ControllerCall :=
  [.createTopic true .oneTwo [116] 3 2, .createTopic true .oneTwo [116] 1 1,
    .checkPartitionFailover .twoThree]

theorem metadata_lists_partitions_twice :
    ∃ visits a, Run (assignmentStep false) ∅ visits a ∧ visits.length = 3 ∧
      (clusterMetadata ∅ a ⟨[116]⟩).partitions.map PartitionMetadata.partitionId = [0, 1, 2] := by
  obtain ⟨a, ha⟩ := Option.isSome_iff_exists.mp
    (show (execute (assignmentStep false) ∅ createdTwice).isSome by rfl)
  have hcreated : partitionsCreated [116] (trace (assignmentStep false) ∅ createdTwice) = 3 := by
    decide
  obtain ⟨hids, -, -, -⟩ := metadata_lists_partitions ∅ (run_of_execute ha) [116]
  exact ⟨_, a, run_of_execute ha, rfl, hids.trans (by rw [hcreated]; rfl)⟩

end MiniKafka.Client
