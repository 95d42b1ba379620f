import MiniKafka.Cluster.Assignments

/-!
# The assignment invariant of the controller

Every assignment the controller keeps should have distinct replicas, an in-sync
set among them, and its leader in sync. `create_topic` and
`check_partition_failover` restore this by themselves. `update_isr` stores the
reported list unchecked, so it keeps the invariant exactly when the report fits
the assignment it finds.
-/

namespace MiniKafka.Cluster

open Foundations

structure PartitionAssignment.WellFormed (pa : PartitionAssignment) : Prop where
  replicas : pa.replicas.Nodup
  isr : pa.isr ⊆ pa.replicas
  leader : pa.leaderId ∈ pa.isr

def Assignments.WellFormed (a : Assignments) : Prop :=
  ∀ (key : TopicPartition) (pa : PartitionAssignment), a[key]? = some pa → pa.WellFormed

inductive ControllerCall
  | createTopic (isLeader : Bool) (alive : AliveIds) (topic : Topic)
      (numPartitions replicationFactor : UInt32)
  | updateIsr (isLeader : Bool) (req : IsrUpdateRequest)
  | checkPartitionFailover (alive : AliveIds)

/-- The map after one call. `isLeader` in a call is what `is_leader()` answered it. -/
def assignmentStep (uncleanLeaderElectionEnable : Bool) (a : Assignments) :
    ControllerCall → Option Assignments
  | .createTopic isLeader alive topic numPartitions replicationFactor =>
      match a.createTopic isLeader alive topic numPartitions replicationFactor with
      | some (_, d) => some d.assignments
      | none => some a
  | .updateIsr isLeader req =>
      match a.updateIsr isLeader req with
      | some d => some d.assignments
      | none => some a
  | .checkPartitionFailover alive =>
      some (a.checkPartitionFailover uncleanLeaderElectionEnable alive).assignments

/-- A report that is going to be stored names replicas of the partition only, and its
leader among them. -/
def ReportFits (a : Assignments) : ControllerCall → Prop
  | .updateIsr true req => ∀ pa, a[(req.topic, req.partitionId)]? = some pa →
      req.isr ⊆ pa.replicas ∧ pa.leaderId ∈ req.isr
  | _ => True

variable {alive : AliveIds} {a a' : Assignments} {unclean : Bool}

theorem AliveIds.pick_eq {nonempty : alive.ids ≠ []} {i j : Nat}
    (h : alive.pick nonempty i = alive.pick nonempty j) :
    i % alive.ids.length = j % alive.ids.length := by
  have hidx := (alive.nodup.injective_get) h
  exact congrArg Fin.val hidx

theorem AliveIds.toNat_factor (replicationFactor : UInt32) :
    (alive.factor replicationFactor).toNat =
      max 1 (min replicationFactor.toNat (alive.ids.length % 2 ^ 32)) := by
  have hmin : (min replicationFactor (UInt32.ofNat alive.ids.length)).toNat =
      min replicationFactor.toNat (alive.ids.length % 2 ^ 32) := by
    have hdef : min replicationFactor (UInt32.ofNat alive.ids.length) =
        if replicationFactor ≤ UInt32.ofNat alive.ids.length then replicationFactor
        else UInt32.ofNat alive.ids.length := rfl
    rw [hdef, ← UInt32.toNat_ofNat']
    split
    · next hle => exact (Nat.min_eq_left (UInt32.le_iff_toNat_le.mp hle)).symm
    · next hnot => exact (Nat.min_eq_right (Nat.le_of_not_le hnot)).symm
  simp only [AliveIds.factor]
  split
  · next hzero =>
      rw [← hmin, hzero]
      rfl
  · next hne =>
      rw [← hmin]
      have hpos : 0 < (min replicationFactor (UInt32.ofNat alive.ids.length)).toNat := by
        apply Nat.pos_of_ne_zero
        intro hzero
        exact hne (UInt32.toNat_inj.mp hzero)
      omega

theorem AliveIds.factor_le (nonempty : alive.ids ≠ []) (replicationFactor : UInt32) :
    (alive.factor replicationFactor).toNat ≤ alive.ids.length := by
  have hpos : 0 < alive.ids.length := List.length_pos_of_ne_nil nonempty
  have hmod := Nat.mod_le alive.ids.length (2 ^ 32)
  rw [toNat_factor]
  omega

theorem AliveIds.factor_pos (replicationFactor : UInt32) :
    0 < (alive.factor replicationFactor).toNat := by
  rw [toNat_factor]
  omega

/-- The consecutive picks wrap around at most once, so they are distinct. -/
theorem AliveIds.roundRobin_wellFormed (nonempty : alive.ids ≠ [])
    (replicationFactor p : UInt32) :
    (alive.roundRobin nonempty (alive.factor replicationFactor) p).WellFormed where
  replicas := by
    refine List.Nodup.map_on (fun k hk l hl heq => ?_) List.nodup_range
    have hle := alive.factor_le nonempty replicationFactor
    have hk : k < alive.ids.length := lt_of_lt_of_le (List.mem_range.mp hk) hle
    have hl : l < alive.ids.length := lt_of_lt_of_le (List.mem_range.mp hl) hle
    have hmod : k ≡ l [MOD alive.ids.length] := Nat.ModEq.add_left_cancel' _ (pick_eq heq)
    exact hmod.eq_of_lt_of_lt hk hl
  isr := List.Subset.refl _
  leader := List.mem_map.mpr ⟨0, List.mem_range.mpr (alive.factor_pos _), rfl⟩

theorem PartitionAssignment.WellFormed.promote {pa pa' : PartitionAssignment}
    (h : pa.WellFormed) (hp : Assignments.promote unclean alive pa = some pa') :
    pa'.WellFormed := by
  unfold Assignments.promote at hp
  split at hp
  · cases hp
  · simp only at hp
    split at hp
    · next newLeader others hcand =>
        obtain rfl := Option.some.inj hp
        refine ⟨h.replicas, fun id hid => ?_, List.mem_cons_self⟩
        -- the new set is a sorted part of the old one
        change id ∈ newLeader :: others at hid
        rw [← hcand, List.mem_insertionSort] at hid
        exact h.isr (List.mem_filter.mp hid).1
    · split at hp
      · split at hp
        · next newLeader others hcand =>
            obtain rfl := Option.some.inj hp
            have hmem : newLeader ∈ pa.replicas := by
              have hid : newLeader ∈ newLeader :: others := List.mem_cons_self
              rw [← hcand, List.mem_insertionSort] at hid
              exact (List.mem_filter.mp hid).1
            exact ⟨h.replicas, by simpa using hmem, List.mem_singleton.mpr rfl⟩
        · cases hp
      · cases hp

theorem Assignments.WellFormed.createTopic (wf : a.WellFormed) {isLeader : Bool}
    {topic : Topic} {numPartitions replicationFactor : UInt32}
    {result : List (UInt32 × PartitionAssignment)} {d : Decision}
    (h : a.createTopic isLeader alive topic numPartitions replicationFactor =
      some (result, d)) : d.assignments.WellFormed := by
  rw [createTopic_apply h]
  intro key pa hpa
  refine forall_applyLeaderAndIsr wf (fun key pa hmem => ?_) hpa
  obtain ⟨nonempty, p, rfl⟩ := mem_createTopic_entries h hmem
  exact alive.roundRobin_wellFormed nonempty _ _

theorem Assignments.WellFormed.failover (wf : a.WellFormed) :
    (a.checkPartitionFailover unclean alive).assignments.WellFormed := by
  rw [failover_apply]
  intro key pa hpa
  refine forall_applyLeaderAndIsr wf (fun key pa hmem => ?_) hpa
  obtain ⟨old, hold, hpa⟩ := mem_failover_entries.mp hmem
  exact (wf key old hold).promote hpa

/-- Storing a report keeps the invariant exactly when the report fits. -/
theorem Assignments.WellFormed.updateIsr (wf : a.WellFormed) {req : IsrUpdateRequest}
    {d : Decision} (h : a.updateIsr true req = some d) :
    d.assignments.WellFormed ↔ ReportFits a (.updateIsr true req) := by
  obtain ⟨pa, -, hpa, rfl⟩ := updateIsr_eq_some h
  constructor
  · intro hd pa' hpa'
    obtain rfl := Option.some.inj (hpa ▸ hpa')
    have hnew := hd (req.topic, req.partitionId) { pa with isr := req.isr }
      (by rw [getElem?_insert_ite, if_pos rfl])
    exact ⟨hnew.isr, hnew.leader⟩
  · intro fits key pa' hpa'
    rw [getElem?_insert_ite] at hpa'
    split at hpa'
    · obtain rfl := Option.some.inj hpa'
      obtain ⟨hsub, hlead⟩ := fits pa hpa
      exact ⟨(wf _ pa hpa).replicas, hsub, hlead⟩
    · exact wf key pa' hpa'

theorem assignmentStep_wellFormed {call : ControllerCall} (wf : a.WellFormed)
    (h : assignmentStep unclean a call = some a') :
    a'.WellFormed ↔ ReportFits a call := by
  cases call with
  | createTopic isLeader alive topic numPartitions replicationFactor =>
      refine iff_of_true ?_ trivial
      simp only [assignmentStep] at h
      split at h
      · next result d hd =>
          obtain rfl := Option.some.inj h
          exact wf.createTopic hd
      · obtain rfl := Option.some.inj h
        exact wf
  | updateIsr isLeader req =>
      simp only [assignmentStep] at h
      split at h
      · next d hd =>
          obtain rfl := Option.some.inj h
          obtain ⟨-, rfl, -⟩ := Assignments.updateIsr_eq_some hd
          exact wf.updateIsr hd
      · next hnone =>
          obtain rfl := Option.some.inj h
          refine iff_of_true wf ?_
          -- an ignored report found no leader or no assignment
          cases isLeader with
          | false => trivial
          | true =>
              intro pa hpa
              simp [Assignments.updateIsr, hpa] at hnone
  | checkPartitionFailover alive =>
      obtain rfl := Option.some.inj h
      exact iff_of_true wf.failover trivial

/-- In a run from a well-formed map, every state is well formed exactly when every
report that was stored fitted the assignment it met. -/
theorem assignments_wellFormed_iff {a₀ : Assignments} (start : a₀.WellFormed)
    {visits : List (Assignments × ControllerCall)}
    (run : Run (assignmentStep unclean) a₀ visits a) :
    ((∀ v ∈ visits, v.1.WellFormed) ∧ a.WellFormed) ↔ Guarded ReportFits visits :=
  run.forall_iff_guarded start fun _ _ wf _ h => assignmentStep_wellFormed wf h

theorem wellFormed_empty : (∅ : Assignments).WellFormed := by
  intro key pa h
  simp at h

/-- A topic on two brokers, whose leader dies and is replaced. -/
def replacedLeader : List ControllerCall :=
  [.createTopic true .oneTwo [116] 1 2,
    .checkPartitionFailover .twoThree]

/-- The report of the new leader fits. -/
theorem assignments_wellFormed_report :
    ∃ visits a, Run (assignmentStep false) ∅ visits a ∧ visits.length = 3 ∧
      (∀ v ∈ visits, v.1.WellFormed) ∧ a.WellFormed := by
  let events := replacedLeader ++ [.updateIsr true ⟨[116], 0, [2]⟩]
  obtain ⟨a, ha⟩ := Option.isSome_iff_exists.mp
    (show (execute (assignmentStep false) ∅ events).isSome by rfl)
  refine ⟨_, a, run_of_execute ha, rfl, ?_⟩
  refine (assignments_wellFormed_iff wellFormed_empty (run_of_execute ha)).mpr ?_
  intro v hv
  rcases List.mem_cons.mp hv with rfl | hv
  · trivial
  · rcases List.mem_cons.mp hv with rfl | hv
    · trivial
    · obtain rfl := List.mem_singleton.mp hv
      intro pa hpa
      obtain rfl : pa = ⟨2, [1, 2], [2]⟩ := Option.some.inj (hpa.symm.trans (by decide))
      decide

/-- The old leader's last report arrives after the promotion: the stored in-sync set
no longer holds the leader. -/
theorem assignments_not_wellFormed :
    ¬ ∀ (unclean : Bool) (visits : List (Assignments × ControllerCall)) (a : Assignments),
      Run (assignmentStep unclean) ∅ visits a → a.WellFormed := by
  intro claim
  obtain ⟨a, ha⟩ := Option.isSome_iff_exists.mp
    (show (execute (assignmentStep false) ∅
      (replacedLeader ++ [.updateIsr true ⟨[116], 0, [1]⟩])).isSome by rfl)
  have seen : (execute (assignmentStep false) ∅
      (replacedLeader ++ [.updateIsr true ⟨[116], 0, [1]⟩])).bind
        (fun a => a[(([116], 0) : TopicPartition)]?) = some ⟨2, [1, 2], [1]⟩ := by decide
  rw [ha] at seen
  have hwf := claim false _ a (run_of_execute ha) _ _ seen
  exact absurd hwf.leader (by decide)

end MiniKafka.Cluster
