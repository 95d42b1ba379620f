import MiniKafka.Cluster.TopicCreation

/-!
# The placement of a new topic

`create_topic` takes the brokers that are alive in turn: partition `p` is led by the one at
position `p` of the round robin, and its replicas are the ones from there on. The number of
brokers is cut to 32 bits before it bounds the replication factor, which changes nothing for
the brokers of a `--peers` table.
-/

namespace MiniKafka.Cluster

open Foundations

/-- The number of partitions that a broker leads. -/
def ledBy (result : List (UInt32 × PartitionAssignment)) (id : BrokerId) : Nat :=
  result.countP fun entry => entry.2.leaderId = id

/-- The partitions of a new topic are on brokers that are alive, led by each of them in equal
shares, and what is returned, stored and broadcast agrees. -/
structure PlacedEvenly (a : Assignments) (alive : AliveIds) (topic : Topic)
    (numPartitions replicationFactor : UInt32) (result : List (UInt32 × PartitionAssignment))
    (d : Decision) : Prop where
  partitions : result.map Prod.fst = (List.range numPartitions.toNat).map UInt32.ofNat
  distinct : ∀ entry ∈ result, entry.2.replicas.Nodup
  living : ∀ entry ∈ result, entry.2.replicas ⊆ alive.ids
  count : ∀ entry ∈ result,
    entry.2.replicas.length = max 1 (min replicationFactor.toNat alive.ids.length)
  leader : ∀ entry ∈ result, entry.2.leaderId ∈ entry.2.replicas
  isr : ∀ entry ∈ result, entry.2.isr = entry.2.replicas
  balanced : ∀ id ∈ alive.ids, ∀ other ∈ alive.ids, ledBy result id ≤ ledBy result other + 1
  others : ∀ key : TopicPartition, key.1 ≠ topic → d.assignments[key]? = a[key]?
  stored : ∀ p pa, d.assignments[((topic, p) : TopicPartition)]? = some pa ↔ (p, pa) ∈ result
  broadcast : d.wireEntries = result.map fun entry => .of (topic, entry.1) entry.2

/-- The partitions of a topic over the brokers that are alive. -/
def AliveIds.placement (alive : AliveIds) (nonempty : alive.ids ≠ [])
    (numPartitions replicationFactor : UInt32) : List (UInt32 × PartitionAssignment) :=
  (List.range numPartitions.toNat).map fun p =>
    (UInt32.ofNat p, alive.roundRobin nonempty (alive.factor replicationFactor) (UInt32.ofNat p))

variable {alive : AliveIds} {nonempty : alive.ids ≠ []} {a : Assignments} {topic : Topic}
  {numPartitions replicationFactor p : UInt32} {result : List (UInt32 × PartitionAssignment)}
  {pa : PartitionAssignment} {d : Decision} {entry : UInt32 × PartitionAssignment}

section Placement

theorem AliveIds.mem_placement :
    (p, pa) ∈ alive.placement nonempty numPartitions replicationFactor ↔
      p < numPartitions ∧ pa = alive.roundRobin nonempty (alive.factor replicationFactor) p := by
  unfold placement
  rw [List.mem_map]
  constructor
  · intro ⟨i, hi, heq⟩
    have hlt : i < numPartitions.toNat := List.mem_range.mp hi
    obtain ⟨hp, hpa⟩ := Prod.mk.inj heq
    refine ⟨?_, ?_⟩
    · rw [← hp, UInt32.lt_iff_toNat_lt,
        UInt32.toNat_ofNat_of_lt' (hlt.trans numPartitions.toNat_lt)]
      exact hlt
    · rw [← hpa, hp]
  · intro ⟨hp, hpa⟩
    refine ⟨p.toNat, List.mem_range.mpr (UInt32.lt_iff_toNat_lt.mp hp), ?_⟩
    rw [UInt32.ofNat_toNat, hpa]

theorem AliveIds.length_roundRobin {rf : UInt32} :
    (alive.roundRobin nonempty rf p).replicas.length = rf.toNat := by
  rw [roundRobin, List.length_map, List.length_range]

theorem AliveIds.pick_mem (i : Nat) : alive.pick nonempty i ∈ alive.ids :=
  List.get_mem _ _

/-- A broker leads the partitions whose number leaves its position as the rest. -/
theorem AliveIds.ledBy_placement (position : Nat) :
    ledBy (alive.placement nonempty numPartitions replicationFactor)
        (alive.pick nonempty position) =
      numPartitions.toNat.count fun p => p ≡ position [MOD alive.ids.length] := by
  unfold ledBy placement Nat.count
  rw [List.countP_map]
  apply List.countP_congr
  intro i hi
  have hlt : i < 2 ^ 32 := (List.mem_range.mp hi).trans numPartitions.toNat_lt
  simp only [Function.comp_apply, decide_eq_true_eq, roundRobin,
    UInt32.toNat_ofNat_of_lt' hlt]
  constructor
  · intro heq
    have hmod := pick_eq heq
    rwa [Nat.mod_mod] at hmod
  · intro hmod
    unfold pick
    congr 2
    rw [Nat.mod_mod]
    exact hmod

theorem AliveIds.placement_balanced {id other : BrokerId} (hid : id ∈ alive.ids)
    (hother : other ∈ alive.ids) :
    ledBy (alive.placement nonempty numPartitions replicationFactor) id ≤
      ledBy (alive.placement nonempty numPartitions replicationFactor) other + 1 := by
  have hpos : 0 < alive.ids.length := List.length_pos_of_ne_nil nonempty
  have hposition : ∀ id ∈ alive.ids, ∃ position, id = alive.pick nonempty position := by
    intro id hid
    obtain ⟨i, hi, hget⟩ := List.getElem_of_mem hid
    refine ⟨i, ?_⟩
    rw [← hget]
    unfold pick
    simp only [Nat.mod_eq_of_lt hi, List.get_eq_getElem]
  obtain ⟨i, hi⟩ := hposition id hid
  obtain ⟨j, hj⟩ := hposition other hother
  rw [hi, hj, ledBy_placement, ledBy_placement, Nat.count_modEq_card _ hpos,
    Nat.count_modEq_card _ hpos]
  split <;> split <;> omega

theorem AliveIds.length_le (alive : AliveIds) : alive.ids.length ≤ 2 ^ 32 := by
  have hnodup : (alive.ids.map UInt32.toNat).Nodup := by
    apply alive.nodup.map
    intro id other heq
    exact UInt32.toNat_inj.mp heq
  have hsub : alive.ids.map UInt32.toNat ⊆ List.range (2 ^ 32) := by
    intro n hn
    obtain ⟨id, -, heq⟩ := List.mem_map.mp hn
    rw [← heq]
    exact List.mem_range.mpr id.toNat_lt
  have hle := (hnodup.subperm hsub).length_le
  rwa [List.length_map, List.length_range] at hle

/-- The factor is the one asked for unless the number of brokers, cut to 32 bits, is zero. -/
theorem AliveIds.factor_eq_iff (nonempty : alive.ids ≠ []) :
    (alive.factor replicationFactor).toNat =
        max 1 (min replicationFactor.toNat alive.ids.length) ↔
      alive.ids.length < 2 ^ 32 ∨ replicationFactor ≤ 1 := by
  have hle := alive.length_le
  have hpos : 0 < alive.ids.length := List.length_pos_of_ne_nil nonempty
  rw [toNat_factor, UInt32.le_iff_toNat_le, UInt32.toNat_one]
  rcases Nat.lt_or_ge alive.ids.length (2 ^ 32) with hlt | hge
  · rw [Nat.mod_eq_of_lt hlt]
    exact iff_of_true rfl (Or.inl hlt)
  · rw [Nat.le_antisymm hle hge, Nat.mod_self]
    omega

end Placement

theorem createTopic_eq (nonempty : alive.ids ≠ []) :
    a.createTopic true alive topic numPartitions replicationFactor =
      some (alive.placement nonempty numPartitions replicationFactor,
        { assignments := (alive.placement nonempty numPartitions replicationFactor).foldl
            (fun a entry => a.insert (topic, entry.1) entry.2) a
          wireEntries := (alive.placement nonempty numPartitions replicationFactor).map
            fun entry => .of (topic, entry.1) entry.2 }) := by
  unfold Assignments.createTopic
  rw [if_pos rfl, dif_pos nonempty]
  rfl

/-- All but the number of the replicas is right whatever the number of brokers. -/
theorem placedEvenly_of_count (fresh : ∀ p, a[((topic, p) : TopicPartition)]? = none)
    (h : a.createTopic true alive topic numPartitions replicationFactor = some (result, d))
    (nonempty : alive.ids ≠ [])
    (hcount : ∀ entry ∈ result,
      entry.2.replicas.length = max 1 (min replicationFactor.toNat alive.ids.length)) :
    PlacedEvenly a alive topic numPartitions replicationFactor result d := by
  obtain ⟨_, hget⟩ := createTopic_getElem? h
  rw [createTopic_eq nonempty] at h
  obtain ⟨hresult, hd⟩ := Prod.mk.inj (Option.some.inj h)
  have hentry : ∀ entry ∈ result, entry.2 =
      alive.roundRobin nonempty (alive.factor replicationFactor) entry.1 := by
    intro entry hentry
    rw [← hresult] at hentry
    exact (AliveIds.mem_placement.mp hentry).2
  have hwell : ∀ entry ∈ result, entry.2.WellFormed := by
    intro entry hmem
    rw [hentry entry hmem]
    exact alive.roundRobin_wellFormed nonempty _ _
  have hisr : ∀ entry ∈ result, entry.2.isr = entry.2.replicas := by
    intro entry hmem
    rw [hentry entry hmem]
    rfl
  constructor
  case count => exact hcount
  case isr => exact hisr
  case partitions =>
    rw [← hresult, AliveIds.placement, List.map_map]
    rfl
  case distinct =>
    intro entry hmem
    exact (hwell entry hmem).replicas
  case living =>
    intro entry hmem id hid
    rw [hentry entry hmem] at hid
    obtain ⟨k, -, hk⟩ := List.mem_map.mp hid
    rw [← hk]
    exact AliveIds.pick_mem _
  case leader =>
    intro entry hmem
    exact (hwell entry hmem).isr (hwell entry hmem).leader
  case balanced =>
    intro id hid other hother
    rw [← hresult]
    exact AliveIds.placement_balanced hid hother
  case others =>
    intro key hkey
    rw [hget key, if_neg]
    intro hwritten
    exact hkey hwritten.1
  case stored =>
    intro p pa
    rw [hget (topic, p), ← hresult, AliveIds.mem_placement]
    split
    · next hp =>
        rw [Option.some.injEq]
        constructor
        · intro heq
          exact ⟨hp.2, heq.symm⟩
        · intro hpa
          exact hpa.2.symm
    · next hp =>
        rw [fresh p]
        constructor
        · intro hnone
          cases hnone
        · intro hpa
          exact absurd ⟨rfl, hpa.1⟩ hp
  case broadcast =>
    rw [← hd, hresult]

/-- A new topic is placed evenly over the brokers that are alive: a table that was read from
the command line never has as many as `2 ^ 32` of them, so their number is not cut. -/
theorem topic_placed_evenly (nonempty : alive.ids ≠ []) (bounded : alive.ids.length < 2 ^ 32)
    (fresh : ∀ p, a[((topic, p) : TopicPartition)]? = none) :
    ∃ result d,
      a.createTopic true alive topic numPartitions replicationFactor = some (result, d) ∧
        PlacedEvenly a alive topic numPartitions replicationFactor result d := by
  refine ⟨_, _, createTopic_eq nonempty, ?_⟩
  apply placedEvenly_of_count fresh (createTopic_eq nonempty) nonempty
  intro entry hentry
  obtain ⟨-, hpa⟩ := AliveIds.mem_placement.mp hentry
  rw [hpa, AliveIds.length_roundRobin, AliveIds.factor_eq_iff nonempty]
  exact Or.inl bounded

/-- The first topic of two brokers that both answered the last heartbeats. -/
theorem topic_placed_evenly_two_brokers :
    let m : Membership := ⟨[1, 2], by decide, by decide⟩
    let alive := m.aliveBrokerIds 1 (fun _ => some 1000) 1200
    ∃ result d, (∅ : Assignments).createTopic true alive [116] 3 2 = some (result, d) ∧
      PlacedEvenly ∅ alive [116] 3 2 result d := by
  intro m alive
  exact topic_placed_evenly (by decide) (m.aliveBrokerIds_bounded 1 _ _)
    fun _ => Std.ExtTreeMap.getElem?_empty

end MiniKafka.Cluster
