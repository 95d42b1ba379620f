import MiniKafka.Cluster.AssignmentInvariant

/-!
# Creating a topic again

`create_topic` writes the assignment of every partition of its topic, whether the map has
one or not. It leaves the partitions that exist alone exactly when each of them still has
the placement that a new one would get.
-/

namespace MiniKafka.Cluster

open Foundations

/-- The placement of a new partition: the leader by round robin over the alive brokers,
the replicas consecutive from it on, all of them in sync. -/
structure AliveIds.Places (alive : AliveIds) (replicationFactor p : UInt32)
    (pa : PartitionAssignment) : Prop where
  leader : alive.ids[p.toNat % alive.ids.length]? = some pa.leaderId
  count : pa.replicas.length = (alive.factor replicationFactor).toNat
  replicas : ∀ k < pa.replicas.length,
    pa.replicas[k]? = alive.ids[(p.toNat + k) % alive.ids.length]?
  isr : pa.isr = pa.replicas

instance (alive : AliveIds) (replicationFactor p : UInt32) (pa : PartitionAssignment) :
    Decidable (alive.Places replicationFactor p pa) :=
  decidable_of_iff
    (alive.ids[p.toNat % alive.ids.length]? = some pa.leaderId ∧
      pa.replicas.length = (alive.factor replicationFactor).toNat ∧
      (∀ k < pa.replicas.length,
        pa.replicas[k]? = alive.ids[(p.toNat + k) % alive.ids.length]?) ∧
      pa.isr = pa.replicas)
    ⟨fun h => ⟨h.1, h.2.1, h.2.2.1, h.2.2.2⟩, fun h => ⟨h.leader, h.count, h.replicas, h.isr⟩⟩

/-- Where a `create_topic` is going to write, what is there has the placement of a new
partition. -/
def StillPlaced (a : Assignments) : ControllerCall → Prop
  | .createTopic true alive topic numPartitions replicationFactor =>
      alive.ids ≠ [] → ∀ i < numPartitions.toNat, ∀ pa ∈ a[(topic, UInt32.ofNat i)]?,
        alive.Places replicationFactor (UInt32.ofNat i) pa
  | _ => True

instance decidableStillPlaced (a : Assignments) : ∀ call, Decidable (StillPlaced a call)
  | .createTopic true alive topic numPartitions replicationFactor =>
      inferInstanceAs (Decidable (alive.ids ≠ [] → ∀ i < numPartitions.toNat,
        ∀ pa ∈ a[(topic, UInt32.ofNat i)]?,
          alive.Places replicationFactor (UInt32.ofNat i) pa))
  | .createTopic false _ _ _ _ | .updateIsr _ _ | .checkPartitionFailover _ => .isTrue trivial

/-- A `create_topic` adds partitions of its topic and changes nothing else. -/
def OnlyAdds (a : Assignments) (call : ControllerCall) (a' : Assignments) : Prop :=
  match call with
  | .createTopic _ _ topic numPartitions _ => ∀ key : TopicPartition, a'[key]? ≠ a[key]? →
      a[key]? = none ∧ key.1 = topic ∧ key.2 < numPartitions
  | _ => True

variable {alive : AliveIds} {a a' : Assignments} {unclean isLeader : Bool} {topic : Topic}
  {numPartitions replicationFactor p : UInt32} {pa : PartitionAssignment}

theorem AliveIds.getElem?_mod (nonempty : alive.ids ≠ []) (i : Nat) :
    alive.ids[i % alive.ids.length]? = some (alive.pick nonempty i) := by
  have hlt : i % alive.ids.length < alive.ids.length :=
    Nat.mod_lt i (List.length_pos_of_ne_nil nonempty)
  rw [List.getElem?_eq_getElem hlt]
  rfl

/-- The round robin of `create_topic` is that placement, and no other assignment is. -/
theorem AliveIds.places_iff (nonempty : alive.ids ≠ []) :
    alive.Places replicationFactor p pa ↔
      pa = alive.roundRobin nonempty (alive.factor replicationFactor) p := by
  have hpick : ∀ k, alive.pick nonempty (p.toNat % alive.ids.length + k) =
      alive.pick nonempty (p.toNat + k) := by
    intro k
    unfold AliveIds.pick
    congr 2
    exact Nat.mod_add_mod _ _ _
  constructor
  · intro h
    have hleader : pa.leaderId = alive.pick nonempty (p.toNat % alive.ids.length) := by
      have hfirst := h.leader
      rw [AliveIds.getElem?_mod nonempty, Option.some.injEq] at hfirst
      rw [← hfirst]
      exact (hpick 0).symm
    have hreplicas : pa.replicas =
        (alive.roundRobin nonempty (alive.factor replicationFactor) p).replicas := by
      apply List.ext_getElem?
      intro k
      unfold AliveIds.roundRobin
      rw [List.getElem?_map]
      rcases Nat.lt_or_ge k pa.replicas.length with hk | hk
      · rw [h.replicas k hk, AliveIds.getElem?_mod nonempty,
          List.getElem?_range (h.count ▸ hk), Option.map_some, hpick]
      · rw [List.getElem?_eq_none hk, List.getElem?_eq_none (by simpa [h.count] using hk),
          Option.map_none]
    calc pa = ⟨pa.leaderId, pa.replicas, pa.isr⟩ := rfl
      _ = alive.roundRobin nonempty (alive.factor replicationFactor) p := by
          rw [h.isr, hleader, hreplicas]
          rfl
  · intro h
    subst h
    refine ⟨?_, ?_, ?_, rfl⟩
    · rw [AliveIds.getElem?_mod nonempty]
      exact congrArg some (hpick 0).symm
    · simp [AliveIds.roundRobin]
    · intro k hk
      have hk' : k < (alive.factor replicationFactor).toNat := by
        simpa [AliveIds.roundRobin] using hk
      rw [AliveIds.getElem?_mod nonempty]
      unfold AliveIds.roundRobin
      rw [List.getElem?_map, List.getElem?_range hk', Option.map_some, hpick]

/-- What a `create_topic` that is carried out leaves in the map. -/
theorem createTopic_getElem? {result : List (UInt32 × PartitionAssignment)} {d : Decision}
    (h : a.createTopic true alive topic numPartitions replicationFactor = some (result, d)) :
    ∃ nonempty : alive.ids ≠ [], ∀ key : TopicPartition, d.assignments[key]? =
      if key.1 = topic ∧ key.2 < numPartitions then
        some (alive.roundRobin nonempty (alive.factor replicationFactor) key.2)
      else a[key]? := by
  have happly := Assignments.createTopic_apply h
  unfold Assignments.createTopic at h
  rw [if_pos rfl] at h
  split at h
  case isFalse => cases h
  next nonempty =>
  refine ⟨nonempty, fun key => ?_⟩
  obtain ⟨-, hd⟩ := Prod.mk.inj (Option.some.inj h)
  have hentries : ∀ e, e ∈ d.wireEntries ↔ ∃ p < numPartitions,
      e = .of (topic, p) (alive.roundRobin nonempty (alive.factor replicationFactor) p) := by
    intro e
    rw [← hd]
    simp only [List.map_map, List.mem_map, List.mem_range, Function.comp]
    constructor
    · rintro ⟨i, hi, he⟩
      have hi' : i < 2 ^ 32 := hi.trans numPartitions.toNat_lt
      refine ⟨UInt32.ofNat i, ?_, he.symm⟩
      rw [UInt32.lt_iff_toNat_lt, UInt32.toNat_ofNat_of_lt' hi']
      exact hi
    · rintro ⟨p, hp, he⟩
      refine ⟨p.toNat, UInt32.lt_iff_toNat_lt.mp hp, ?_⟩
      rw [UInt32.ofNat_toNat]
      exact he.symm
  rw [happly, Assignments.getElem?_applyLeaderAndIsr]
  cases hw : Assignments.written d.wireEntries key with
  | some pa =>
      obtain ⟨p, hp, he⟩ := (hentries _).mp (Assignments.mem_of_written hw)
      have hkey : key = (topic, p) := congrArg LeaderAndISREntry.key he
      have hpa := congrArg LeaderAndISREntry.assignment he
      rw [LeaderAndISREntry.assignment_of, LeaderAndISREntry.assignment_of] at hpa
      rw [hkey, if_pos ⟨rfl, hp⟩, ← hpa, Option.some_or]
  | none =>
      rw [if_neg, Option.none_or]
      rintro ⟨htopic, hp⟩
      have hmem := (hentries _).mpr ⟨key.2, hp, rfl⟩
      refine Assignments.written_ne_none hmem ?_
      rw [LeaderAndISREntry.key_of, ← htopic]
      exact hw

/-- One `create_topic` disturbs nothing exactly when what it overwrites is still placed
as a new partition would be. -/
theorem createTopic_onlyAdds_iff
    (h : assignmentStep unclean a (.createTopic isLeader alive topic numPartitions
      replicationFactor) = some a') :
    OnlyAdds a (.createTopic isLeader alive topic numPartitions replicationFactor) a' ↔
      StillPlaced a (.createTopic isLeader alive topic numPartitions replicationFactor) := by
  simp only [assignmentStep] at h
  split at h
  · next result d hd =>
      obtain rfl := Option.some.inj h
      have hlead : isLeader = true := by
        cases isLeader with
        | true => rfl
        | false => simp [Assignments.createTopic] at hd
      subst hlead
      obtain ⟨nonempty, hget⟩ := createTopic_getElem? hd
      constructor
      · intro hadds _ i hi pa hpa
        have hi' : i < 2 ^ 32 := hi.trans numPartitions.toNat_lt
        have hlt : UInt32.ofNat i < numPartitions := by
          rw [UInt32.lt_iff_toNat_lt, UInt32.toNat_ofNat_of_lt' hi']
          exact hi
        have hnew := hget (topic, UInt32.ofNat i)
        rw [if_pos ⟨rfl, hlt⟩] at hnew
        rw [AliveIds.places_iff nonempty]
        by_contra hne
        have hchanged : d.assignments[(topic, UInt32.ofNat i)]? ≠ a[(topic, UInt32.ofNat i)]? := by
          rw [hnew, hpa]
          intro heq
          exact hne (Option.some.inj heq).symm
        have habsent := (hadds _ hchanged).1
        rw [hpa] at habsent
        cases habsent
      · intro hplaced key hchanged
        rw [hget key] at hchanged
        split at hchanged
        · next hkey =>
            obtain ⟨htopic, hlt⟩ := hkey
            refine ⟨?_, htopic, hlt⟩
            apply Option.eq_none_iff_forall_ne_some.mpr
            intro pa hpa
            have hkey : key = (topic, UInt32.ofNat key.2.toNat) := by
              rw [UInt32.ofNat_toNat, ← htopic]
            have hstill := hplaced nonempty key.2.toNat (UInt32.lt_iff_toNat_lt.mp hlt) pa
              (by rw [← hkey]; exact hpa)
            rw [AliveIds.places_iff nonempty, UInt32.ofNat_toNat] at hstill
            rw [hpa, hstill] at hchanged
            exact hchanged rfl
        · exact absurd rfl hchanged
  · next hnone =>
      obtain rfl := Option.some.inj h
      refine iff_of_true (fun key hchanged => absurd rfl hchanged) ?_
      -- a refused call found no controller here, or nobody alive
      cases isLeader with
      | false => trivial
      | true =>
          intro nonempty
          simp [Assignments.createTopic, nonempty] at hnone

/-- In every run of the controller, each `create_topic` only adds partitions exactly when
each meets its existing partitions placed as new ones. -/
theorem created_topics_only_add_iff {visits : List (Assignments × ControllerCall)}
    (run : Run (assignmentStep unclean) ∅ visits a) :
    (∀ v ∈ visits, ∃ a', assignmentStep unclean v.1 v.2 = some a' ∧ OnlyAdds v.1 v.2 a') ↔
      Guarded StillPlaced visits := by
  have hstep : ∀ v ∈ visits, ∀ a', assignmentStep unclean v.1 v.2 = some a' →
      (OnlyAdds v.1 v.2 a' ↔ StillPlaced v.1 v.2) := by
    rintro ⟨t, call⟩ - a' h
    cases call with
    | createTopic isLeader alive topic numPartitions replicationFactor =>
        exact createTopic_onlyAdds_iff h
    | updateIsr isLeader req => exact iff_of_true trivial trivial
    | checkPartitionFailover alive => exact iff_of_true trivial trivial
  constructor
  · intro hadds v hv
    obtain ⟨a', ha', hadd⟩ := hadds v hv
    exact (hstep v hv a' ha').mp hadd
  · intro hplaced v hv
    obtain ⟨_, _, a', -, -, ha'⟩ := run.visited hv
    exact ⟨a', ha', (hstep v hv a' ha').mpr (hplaced v hv)⟩

/-- After the failover another topic is created. -/
def anotherTopic : List ControllerCall :=
  replacedLeader ++ [.createTopic true .twoThree [117] 2 1]

theorem created_topics_only_add_another :
    ∃ visits a, Run (assignmentStep false) ∅ visits a ∧ visits.length = 3 ∧
      ∀ v ∈ visits, ∃ a', assignmentStep false v.1 v.2 = some a' ∧ OnlyAdds v.1 v.2 a' := by
  obtain ⟨a, ha⟩ := Option.isSome_iff_exists.mp
    (show (execute (assignmentStep false) ∅ anotherTopic).isSome by decide)
  have hplaced : Guarded StillPlaced (trace (assignmentStep false) ∅ anotherTopic) := by
    decide
  exact ⟨_, a, run_of_execute ha, by decide,
    (created_topics_only_add_iff (run_of_execute ha)).mpr hplaced⟩

/-- Created again after the failover, the topic gets a replica that has none of its data,
in the in-sync set at once. -/
theorem created_again_overwrites :
    ¬ ∀ (unclean : Bool) (visits : List (Assignments × ControllerCall)) (a : Assignments),
      Run (assignmentStep unclean) ∅ visits a →
      ∀ (alive : AliveIds) (topic : Topic) (numPartitions replicationFactor : UInt32)
        (a' : Assignments),
        assignmentStep unclean a
          (.createTopic true alive topic numPartitions replicationFactor) = some a' →
        ∀ (key : TopicPartition) (pa : PartitionAssignment), a[key]? = some pa →
          a'[key]? = some pa := by
  intro claim
  obtain ⟨a, ha⟩ := Option.isSome_iff_exists.mp
    (show (execute (assignmentStep false) ∅ replacedLeader).isSome by decide)
  have before : (execute (assignmentStep false) ∅ replacedLeader).bind
      (fun a => a[(([116], 0) : TopicPartition)]?) = some ⟨2, [1, 2], [2]⟩ := by decide
  have after : ((execute (assignmentStep false) ∅ replacedLeader).bind fun a =>
      assignmentStep false a (.createTopic true .twoThree [116] 1 2)).bind
      (fun a => a[(([116], 0) : TopicPartition)]?) = some ⟨2, [2, 3], [2, 3]⟩ := by decide
  rw [ha, Option.bind_some] at before after
  obtain ⟨a', ha', hnew⟩ := Option.bind_eq_some_iff.mp after
  have hkept := claim false _ a (run_of_execute ha) .twoThree [116] 1 2 a' ha' _ _ before
  rw [hkept] at hnew
  exact absurd hnew (by decide)

end MiniKafka.Cluster
