import MiniKafka.Cluster.Membership
import MiniKafka.Foundations.Run
import MiniKafka.Foundations.Table
import Mathlib

/-!
# The controller's partition assignments

`ClusterController::assignments_` and the operations that rewrite it: the round
robin of `create_topic`, the reports of `update_isr`, the promotions of
`check_partition_failover`, and `apply_leader_and_isr` on the receiving side. Each
controller operation is its critical section; it returns the new map and the
entries it broadcasts after the lock is released.
-/

namespace MiniKafka.Cluster

open Foundations

/-- A topic name, as the bytes of its string. -/
abbrev Topic := List UInt8

abbrev TopicPartition := Topic × UInt32

/-- The order of `std::map` on pairs of a string and a number. -/
instance : Ord TopicPartition := lexOrd

instance : Std.TransOrd TopicPartition := Std.instTransOrdProd

structure PartitionAssignment where
  leaderId : BrokerId := 0
  replicas : List BrokerId
  isr : List BrokerId
  deriving DecidableEq, Repr

abbrev Assignments := Std.ExtTreeMap TopicPartition PartitionAssignment

structure LeaderAndISREntry where
  topic : Topic
  partitionId : UInt32
  leaderId : BrokerId
  replicas : List BrokerId
  isr : List BrokerId
  deriving DecidableEq, Repr

structure IsrUpdateRequest where
  topic : Topic
  partitionId : UInt32
  isr : List BrokerId
  deriving DecidableEq, Repr

namespace LeaderAndISREntry

variable (e : LeaderAndISREntry)

def key : TopicPartition := (e.topic, e.partitionId)

def assignment : PartitionAssignment := ⟨e.leaderId, e.replicas, e.isr⟩

/-- The entry a controller broadcasts for a stored assignment. -/
def of (key : TopicPartition) (pa : PartitionAssignment) : LeaderAndISREntry :=
  ⟨key.1, key.2, pa.leaderId, pa.replicas, pa.isr⟩

@[simp] theorem key_of (key : TopicPartition) (pa : PartitionAssignment) :
    (of key pa).key = key := rfl

@[simp] theorem assignment_of (key : TopicPartition) (pa : PartitionAssignment) :
    (of key pa).assignment = pa := rfl

end LeaderAndISREntry

/-- An answer of `alive_broker_ids`: no broker is listed twice. -/
structure AliveIds where
  ids : List BrokerId
  nodup : ids.Nodup

/-- The answers of the example runs, in which broker 1 dies. -/
def AliveIds.oneTwo : AliveIds := ⟨[1, 2], by decide⟩

def AliveIds.twoThree : AliveIds := ⟨[2, 3], by decide⟩

def kAliveThresholdMs : UInt64 := 600

/-- `alive_broker_ids` at the time `now`: the broker itself and every peer whose last
answered heartbeat is recent. -/
def Membership.aliveBrokerIds (m : Membership) (selfId : BrokerId)
    (lastAliveMs : BrokerId → Option UInt64) (now : UInt64) : AliveIds where
  ids := m.allIds.filter fun id =>
    id = selfId ∨ (lastAliveMs id).any fun last => now - last ≤ kAliveThresholdMs
  nodup := m.allIds_nodup.filter _

theorem Membership.aliveBrokerIds_bounded (m : Membership) (selfId : BrokerId)
    (lastAliveMs : BrokerId → Option UInt64) (now : UInt64) :
    (m.aliveBrokerIds selfId lastAliveMs now).ids.length < 2 ^ 32 :=
  (List.length_filter_le _ _).trans_lt m.bounded

/-- What one critical section leaves: the map, and what is broadcast after it. -/
structure Decision where
  assignments : Assignments
  wireEntries : List LeaderAndISREntry

namespace AliveIds

variable (alive : AliveIds) (nonempty : alive.ids ≠ [])

/-- The broker at a position of the round robin. -/
def pick (i : Nat) : BrokerId :=
  alive.ids.get ⟨i % alive.ids.length, Nat.mod_lt i (List.length_pos_of_ne_nil nonempty)⟩

/-- The replication factor `create_topic` can meet. -/
def factor (replicationFactor : UInt32) : UInt32 :=
  let rf := min replicationFactor (UInt32.ofNat alive.ids.length)
  if rf = 0 then 1 else rf

/-- The assignment of partition `p` of a new topic. -/
def roundRobin (rf : UInt32) (p : UInt32) : PartitionAssignment :=
  let leaderIdx := p.toNat % alive.ids.length
  let replicas := (List.range rf.toNat).map fun k => alive.pick nonempty (leaderIdx + k)
  ⟨alive.pick nonempty leaderIdx, replicas, replicas⟩

end AliveIds

namespace Assignments

/-- The partitions a `create_topic` call returns, and its decision; `none` is
`nullopt`, which leaves the map alone. -/
def createTopic (a : Assignments) (isLeader : Bool) (alive : AliveIds) (topic : Topic)
    (numPartitions replicationFactor : UInt32) :
    Option (List (UInt32 × PartitionAssignment) × Decision) :=
  if isLeader then
    if nonempty : alive.ids ≠ [] then
      let rf := alive.factor replicationFactor
      let result := (List.range numPartitions.toNat).map fun p =>
        (UInt32.ofNat p, alive.roundRobin nonempty rf (UInt32.ofNat p))
      some (result,
        { assignments := result.foldl (fun a (p, pa) => a.insert (topic, p) pa) a
          wireEntries := result.map fun (p, pa) => .of (topic, p) pa })
    else none
  else none

def updateIsr (a : Assignments) (isLeader : Bool) (req : IsrUpdateRequest) :
    Option Decision :=
  if isLeader then
    let key : TopicPartition := (req.topic, req.partitionId)
    a[key]?.map fun pa =>
      let pa := { pa with isr := req.isr }
      ⟨a.insert key pa, [.of key pa]⟩
  else none

/-- The replacement for an assignment whose leader is not alive; `none` where the
leader is alive or nobody can be promoted. -/
def promote (uncleanLeaderElectionEnable : Bool) (alive : AliveIds)
    (pa : PartitionAssignment) : Option PartitionAssignment :=
  if pa.leaderId ∈ alive.ids then none
  else
    let candidates (ids : List BrokerId) : List BrokerId :=
      (ids.filter fun id => id ≠ pa.leaderId ∧ id ∈ alive.ids).insertionSort (· ≤ ·)
    match candidates pa.isr with
    | newLeader :: others =>
        some { pa with leaderId := newLeader, isr := newLeader :: others }
    | [] =>
        if uncleanLeaderElectionEnable then
          match candidates pa.replicas with
          | newLeader :: _ => some { pa with leaderId := newLeader, isr := [newLeader] }
          | [] => none
        else none

def checkPartitionFailover (a : Assignments) (uncleanLeaderElectionEnable : Bool)
    (alive : AliveIds) : Decision where
  assignments := a.map fun _ pa => (promote uncleanLeaderElectionEnable alive pa).getD pa
  wireEntries := a.toList.filterMap fun (key, pa) =>
    (promote uncleanLeaderElectionEnable alive pa).map (.of key)

def applyLeaderAndIsr (a : Assignments) (entries : List LeaderAndISREntry) : Assignments :=
  entries.foldl (fun a e => a.insert e.key e.assignment) a

/-- What a list of entries leaves for a partition in an empty map. -/
def written (entries : List LeaderAndISREntry) (key : TopicPartition) :
    Option PartitionAssignment :=
  (applyLeaderAndIsr ∅ entries)[key]?

section Apply

variable {a : Assignments} {entries : List LeaderAndISREntry} {key : TopicPartition}

theorem applyLeaderAndIsr_snoc (e : LeaderAndISREntry) :
    applyLeaderAndIsr a (entries ++ [e]) =
      (applyLeaderAndIsr a entries).insert e.key e.assignment := by
  simp [applyLeaderAndIsr]

/-- A partition the entries name gets what they write, any other keeps its assignment. -/
theorem getElem?_applyLeaderAndIsr (a : Assignments) :
    (applyLeaderAndIsr a entries)[key]? = (written entries key).or a[key]? := by
  induction entries using List.reverseRecOn with
  | nil => simp [applyLeaderAndIsr, written]
  | append_singleton entries e ih =>
      simp only [written, applyLeaderAndIsr_snoc, getElem?_insert_ite] at ih ⊢
      split
      · rfl
      · exact ih

/-- What is written for a partition is what one of the entries says. -/
theorem mem_of_written {pa : PartitionAssignment} (h : written entries key = some pa) :
    LeaderAndISREntry.of key pa ∈ entries := by
  induction entries using List.reverseRecOn with
  | nil => simp [written, applyLeaderAndIsr] at h
  | append_singleton entries e ih =>
      rw [written, applyLeaderAndIsr_snoc, getElem?_insert_ite] at h
      split at h
      · next hkey =>
          obtain rfl := Option.some.inj h
          rw [← hkey]
          exact List.mem_append_right _ (List.mem_singleton.mpr rfl)
      · exact List.mem_append_left _ (ih h)

theorem written_ne_none {e : LeaderAndISREntry} (he : e ∈ entries) :
    written entries e.key ≠ none := by
  induction entries using List.reverseRecOn with
  | nil => simp at he
  | append_singleton entries e' ih =>
      rw [written, applyLeaderAndIsr_snoc, getElem?_insert_ite]
      split
      · simp
      · next hkey =>
          refine ih ((List.mem_append.mp he).resolve_right fun h => hkey ?_)
          rw [List.mem_singleton.mp h]

/-- What holds of the assignments that are there and of those that are written holds of all
afterwards. -/
theorem forall_applyLeaderAndIsr {P : PartitionAssignment → Prop}
    (old : ∀ (key : TopicPartition) (pa : PartitionAssignment), a[key]? = some pa → P pa)
    (new : ∀ key pa, LeaderAndISREntry.of key pa ∈ entries → P pa) {pa : PartitionAssignment}
    (h : (applyLeaderAndIsr a entries)[key]? = some pa) : P pa := by
  rw [getElem?_applyLeaderAndIsr] at h
  cases hw : written entries key with
  | some pa' =>
      rw [hw] at h
      obtain rfl := Option.some.inj h
      exact new key _ (mem_of_written hw)
  | none =>
      rw [hw] at h
      exact old key pa h

end Apply

/-! A controller operation leaves in its own map exactly what it broadcasts. -/

theorem createTopic_apply {a : Assignments} {isLeader : Bool} {alive : AliveIds} {topic : Topic}
    {numPartitions replicationFactor : UInt32} {result : List (UInt32 × PartitionAssignment)}
    {d : Decision}
    (h : createTopic a isLeader alive topic numPartitions replicationFactor = some (result, d)) :
    d.assignments = applyLeaderAndIsr a d.wireEntries := by
  unfold createTopic at h
  split at h
  · split at h
    · obtain ⟨rfl, rfl⟩ := Prod.mk.inj (Option.some.inj h)
      simp [applyLeaderAndIsr, List.foldl_map]
    · cases h
  · cases h

/-- `create_topic` writes placements of its round robin only. -/
theorem mem_createTopic_entries {a : Assignments} {isLeader : Bool} {alive : AliveIds}
    {topic : Topic} {numPartitions replicationFactor : UInt32}
    {result : List (UInt32 × PartitionAssignment)} {d : Decision} {key : TopicPartition}
    {pa : PartitionAssignment}
    (h : createTopic a isLeader alive topic numPartitions replicationFactor = some (result, d))
    (hmem : LeaderAndISREntry.of key pa ∈ d.wireEntries) :
    ∃ nonempty p, pa = alive.roundRobin nonempty (alive.factor replicationFactor) p := by
  unfold createTopic at h
  split at h
  · split at h
    · next nonempty =>
        obtain ⟨rfl, rfl⟩ := Prod.mk.inj (Option.some.inj h)
        simp only [List.map_map, List.mem_map] at hmem
        obtain ⟨p, -, heq⟩ := hmem
        have hpa := congrArg LeaderAndISREntry.assignment heq
        rw [LeaderAndISREntry.assignment_of] at hpa
        exact ⟨nonempty, UInt32.ofNat p, hpa.symm⟩
    · cases h
  · cases h

theorem updateIsr_eq_some {a : Assignments} {isLeader : Bool} {req : IsrUpdateRequest}
    {d : Decision} (h : updateIsr a isLeader req = some d) :
    ∃ pa, isLeader = true ∧ a[(req.topic, req.partitionId)]? = some pa ∧
      d = ⟨a.insert (req.topic, req.partitionId) { pa with isr := req.isr },
        [.of (req.topic, req.partitionId) { pa with isr := req.isr }]⟩ := by
  unfold updateIsr at h
  split at h
  · next hlead =>
      obtain ⟨pa, hpa, rfl⟩ := Option.map_eq_some_iff.mp h
      exact ⟨pa, hlead, hpa, rfl⟩
  · cases h

theorem mem_failover_entries {a : Assignments} {unclean : Bool} {alive : AliveIds}
    {key : TopicPartition} {pa : PartitionAssignment} :
    LeaderAndISREntry.of key pa ∈ (checkPartitionFailover a unclean alive).wireEntries ↔
      ∃ old, a[key]? = some old ∧ promote unclean alive old = some pa := by
  simp only [checkPartitionFailover, List.mem_filterMap]
  constructor
  · rintro ⟨⟨key', old⟩, hmem, h⟩
    obtain ⟨pa', hpa, heq⟩ := Option.map_eq_some_iff.mp h
    have hkey : key' = key := congrArg LeaderAndISREntry.key heq
    have hassign : pa' = pa := congrArg LeaderAndISREntry.assignment heq
    subst hkey hassign
    exact ⟨old, Std.ExtTreeMap.mem_toList_iff_getElem?_eq_some.mp hmem, hpa⟩
  · rintro ⟨old, hold, hpa⟩
    refine ⟨(key, old), Std.ExtTreeMap.mem_toList_iff_getElem?_eq_some.mpr hold, ?_⟩
    simp [hpa]

theorem failover_apply (a : Assignments) (unclean : Bool) (alive : AliveIds) :
    (checkPartitionFailover a unclean alive).assignments =
      applyLeaderAndIsr a (checkPartitionFailover a unclean alive).wireEntries := by
  refine Std.ExtTreeMap.ext_getElem? fun key => ?_
  rw [getElem?_applyLeaderAndIsr]
  cases hw : written (checkPartitionFailover a unclean alive).wireEntries key with
  | some pa =>
      obtain ⟨old, hold, hpa⟩ := mem_failover_entries.mp (mem_of_written hw)
      simp [checkPartitionFailover, hold, hpa]
  | none =>
      have hnot : ∀ old, a[key]? = some old → promote unclean alive old = none := by
        intro old hold
        rw [Option.eq_none_iff_forall_ne_some]
        intro pa hpa
        exact written_ne_none (mem_failover_entries.mpr ⟨old, hold, hpa⟩) hw
      cases hold : a[key]? with
      | none => simp [checkPartitionFailover, hold]
      | some old => simp [checkPartitionFailover, hold, hnot old hold]

end Assignments

end MiniKafka.Cluster
