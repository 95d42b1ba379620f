import MiniKafka.Cluster.AssignmentInvariant
import MiniKafka.Foundations.Table

/-!
# A failover pass

`check_partition_failover` looks at every assignment once. A leader that is not alive
gives way to an alive member of the in-sync set or, with unclean election, to any alive
replica, and the pass broadcasts what it replaced. A second pass with the same alive
brokers finds nothing to do.
-/

namespace MiniKafka.Cluster

open Foundations

variable {alive : AliveIds} {unclean : Bool} {pa pa' : PartitionAssignment} {id : BrokerId}

namespace AliveIds

/-- The brokers of a list that can take over from the leader, in the order in which they
are tried. -/
def candidates (alive : AliveIds) (pa : PartitionAssignment) (ids : List BrokerId) :
    List BrokerId :=
  (ids.filter fun id => id ≠ pa.leaderId ∧ id ∈ alive.ids).insertionSort (· ≤ ·)

/-- The leader itself is no candidate only because it is not alive. -/
theorem mem_candidates (dead : pa.leaderId ∉ alive.ids) {ids : List BrokerId} :
    id ∈ alive.candidates pa ids ↔ id ∈ ids ∧ id ∈ alive.ids := by
  rw [candidates, List.mem_insertionSort, List.mem_filter, decide_eq_true_iff]
  constructor
  · intro h
    exact ⟨h.1, h.2.2⟩
  · intro h
    refine ⟨h.1, ?_, h.2⟩
    intro heq
    apply dead
    rw [← heq]
    exact h.2

theorem candidates_head {ids : List BrokerId} (dead : pa.leaderId ∉ alive.ids)
    (h : (alive.candidates pa ids).head? = some id) : id ∈ ids ∧ id ∈ alive.ids :=
  (mem_candidates dead).mp (List.mem_of_mem_head? h)

theorem candidates_head_none {ids : List BrokerId} (dead : pa.leaderId ∉ alive.ids) :
    (alive.candidates pa ids).head? = none ↔ ∀ id ∈ ids, id ∉ alive.ids := by
  rw [List.head?_eq_none_iff, List.eq_nil_iff_forall_not_mem]
  simp only [mem_candidates dead, not_and]

end AliveIds

namespace Assignments

theorem promote_of_alive (h : pa.leaderId ∈ alive.ids) : promote unclean alive pa = none :=
  if_pos h

/-- The first candidate of the in-sync set takes over and keeps the others in sync; the
first one of the replicas takes over alone. -/
theorem promote_of_dead (dead : pa.leaderId ∉ alive.ids) :
    promote unclean alive pa =
      (((alive.candidates pa pa.isr).head?.map fun newLeader =>
          { pa with leaderId := newLeader, isr := alive.candidates pa pa.isr }).or
        (if unclean then (alive.candidates pa pa.replicas).head?.map fun newLeader =>
          { pa with leaderId := newLeader, isr := [newLeader] } else none)) := by
  rw [promote, if_neg dead]
  cases hisr : alive.candidates pa pa.isr with
  | cons newLeader others =>
      rw [AliveIds.candidates] at hisr
      simp only [hisr]
      rfl
  | nil =>
      rw [AliveIds.candidates] at hisr
      cases hreplicas : alive.candidates pa pa.replicas with
      | cons newLeader others =>
          rw [AliveIds.candidates] at hreplicas
          simp only [hisr, hreplicas]
          rfl
      | nil =>
          rw [AliveIds.candidates] at hreplicas
          simp only [hisr, hreplicas]
          rfl

/-- Nobody is promoted where the leader is alive, and where nobody could be. -/
theorem promote_eq_none (h : promote unclean alive pa = none) :
    pa.leaderId ∈ alive.ids ∨
      ((∀ id ∈ pa.isr, id ∉ alive.ids) ∧
        (unclean = true → ∀ id ∈ pa.replicas, id ∉ alive.ids)) := by
  by_cases dead : pa.leaderId ∈ alive.ids
  · exact Or.inl dead
  · rw [promote_of_dead dead, Option.or_eq_none_iff, Option.map_eq_none_iff,
      AliveIds.candidates_head_none dead] at h
    refine Or.inr ⟨h.1, ?_⟩
    intro hunclean
    have hreplicas := h.2
    rw [if_pos hunclean, Option.map_eq_none_iff, AliveIds.candidates_head_none dead] at hreplicas
    exact hreplicas

/-- Who is promoted, and over whom. -/
theorem promote_eq_some (h : promote unclean alive pa = some pa') :
    pa.leaderId ∉ alive.ids ∧ pa'.leaderId ∈ alive.ids ∧ pa'.replicas = pa.replicas ∧
      (pa'.leaderId ∈ pa.isr ∨
        (unclean = true ∧ pa'.leaderId ∈ pa.replicas ∧ ∀ id ∈ pa.isr, id ∉ alive.ids)) := by
  by_cases dead : pa.leaderId ∈ alive.ids
  · rw [promote_of_alive dead] at h
    cases h
  · rw [promote_of_dead dead, Option.or_eq_some_iff] at h
    refine ⟨dead, ?_⟩
    rcases h with h | ⟨hnone, h⟩
    · -- an in-sync broker is alive
      obtain ⟨newLeader, hhead, rfl⟩ := Option.map_eq_some_iff.mp h
      have hmem := AliveIds.candidates_head dead hhead
      exact ⟨hmem.2, rfl, Or.inl hmem.1⟩
    · split at h
      · next hunclean =>
          obtain ⟨newLeader, hhead, rfl⟩ := Option.map_eq_some_iff.mp h
          have hmem := AliveIds.candidates_head dead hhead
          have hisr := (AliveIds.candidates_head_none dead).mp (Option.map_eq_none_iff.mp hnone)
          exact ⟨hmem.2, rfl, Or.inr ⟨hunclean, hmem.1, hisr⟩⟩
      · cases h

/-- A promoted leader is alive, so it is not replaced again. -/
theorem promote_getD_promote :
    promote unclean alive ((promote unclean alive pa).getD pa) = none := by
  cases h : promote unclean alive pa with
  | none => exact h
  | some pa' => exact promote_of_alive (promote_eq_some h).2.1

variable {a : Assignments} {key : TopicPartition}

theorem getElem?_failover :
    (a.checkPartitionFailover unclean alive).assignments[key]? =
      a[key]?.map fun pa => (promote unclean alive pa).getD pa := by
  simp [checkPartitionFailover]

/-- No partition is broadcast twice. -/
theorem failover_entries_nodup :
    ((a.checkPartitionFailover unclean alive).wireEntries.map LeaderAndISREntry.key).Nodup := by
  have hsub : ((a.checkPartitionFailover unclean alive).wireEntries.map
      LeaderAndISREntry.key).Sublist (a.toList.map Prod.fst) := by
    apply map_filterMap_sublist
    intro entry e he
    obtain ⟨pa', -, rfl⟩ := Option.map_eq_some_iff.mp he
    rfl
  exact nodup_keys_toList.sublist hsub

theorem mem_wireEntries {e : LeaderAndISREntry} :
    e ∈ (a.checkPartitionFailover unclean alive).wireEntries ↔
      ∃ pa, a[e.key]? = some pa ∧ promote unclean alive pa = some e.assignment :=
  @mem_failover_entries a unclean alive e.key e.assignment

/-- What is broadcast is what changed. -/
theorem mem_failover_entries_iff {e : LeaderAndISREntry} :
    e ∈ (a.checkPartitionFailover unclean alive).wireEntries ↔
      ∃ pa, a[e.key]? = some pa ∧
        (a.checkPartitionFailover unclean alive).assignments[e.key]? = some e.assignment ∧
        e.assignment ≠ pa := by
  constructor
  · intro he
    obtain ⟨pa, hpa, hpromote⟩ := mem_wireEntries.mp he
    refine ⟨pa, hpa, ?_, ?_⟩
    · rw [getElem?_failover, hpa, Option.map_some, hpromote]
      rfl
    · intro heq
      have hspec := promote_eq_some hpromote
      apply hspec.1
      rw [← heq]
      exact hspec.2.1
  · intro h
    obtain ⟨pa, hpa, hafter, hne⟩ := h
    apply mem_wireEntries.mpr
    refine ⟨pa, hpa, ?_⟩
    rw [getElem?_failover, hpa, Option.map_some] at hafter
    have hgetD := Option.some.inj hafter
    cases hpromote : promote unclean alive pa with
    | none =>
        rw [hpromote] at hgetD
        exact absurd hgetD.symm hne
    | some pa' =>
        rw [hpromote] at hgetD
        exact congrArg some hgetD

/-- After a pass nobody is left to be replaced. -/
theorem failover_failover :
    (a.checkPartitionFailover unclean alive).assignments.checkPartitionFailover unclean alive =
      ⟨(a.checkPartitionFailover unclean alive).assignments, []⟩ := by
  have hstuck : ∀ (key : TopicPartition) (pa : PartitionAssignment),
      (a.checkPartitionFailover unclean alive).assignments[key]? = some pa →
        promote unclean alive pa = none := by
    intro key pa hpa
    rw [getElem?_failover] at hpa
    obtain ⟨old, -, rfl⟩ := Option.map_eq_some_iff.mp hpa
    exact promote_getD_promote
  rw [Decision.mk.injEq]
  constructor
  · apply Std.ExtTreeMap.ext_getElem?
    intro key
    rw [getElem?_failover]
    cases hpa : (a.checkPartitionFailover unclean alive).assignments[key]? with
    | none => rfl
    | some pa => rw [Option.map_some, hstuck key pa hpa, Option.getD_none]
  · apply List.eq_nil_iff_forall_not_mem.mpr
    intro e he
    obtain ⟨pa, hpa, hpromote⟩ := mem_wireEntries.mp he
    rw [hstuck _ pa hpa] at hpromote
    cases hpromote

end Assignments

/-- What a pass makes of one assignment. -/
structure PartitionAssignment.FailedOver (unclean : Bool) (alive : AliveIds)
    (pa pa' : PartitionAssignment) : Prop where
  untouched : pa.leaderId ∈ alive.ids → pa' = pa
  replicas : pa'.replicas = pa.replicas
  changed : pa' ≠ pa → pa'.leaderId ∈ alive.ids
  clean : unclean = false → pa' ≠ pa → pa'.leaderId ∈ pa.isr
  preferred : pa' ≠ pa → (∃ id ∈ pa.isr, id ∈ alive.ids) → pa'.leaderId ∈ pa.isr
  kept : pa'.leaderId ∉ alive.ids →
    (∀ id ∈ pa.isr, id ∉ alive.ids) ∧ (unclean = true → ∀ id ∈ pa.replicas, id ∉ alive.ids)
  wellFormed : pa'.WellFormed

/-- What a pass makes of a map, and what it broadcasts. -/
structure Assignments.FailedOver (unclean : Bool) (alive : AliveIds) (a : Assignments)
    (d : Decision) : Prop where
  entries (key : TopicPartition) :
    Option.Rel (PartitionAssignment.FailedOver unclean alive) a[key]? d.assignments[key]?
  broadcast (e : LeaderAndISREntry) : e ∈ d.wireEntries ↔
    ∃ pa, a[e.key]? = some pa ∧ d.assignments[e.key]? = some e.assignment ∧ e.assignment ≠ pa
  once : (d.wireEntries.map LeaderAndISREntry.key).Nodup
  again : d.assignments.checkPartitionFailover unclean alive = ⟨d.assignments, []⟩

/-- An assignment that is not replaced has a living leader or nobody who could take over. -/
theorem PartitionAssignment.WellFormed.failedOver_none (wf : pa.WellFormed)
    (h : Assignments.promote unclean alive pa = none) : pa.FailedOver unclean alive pa where
  untouched := fun _ => rfl
  replicas := rfl
  changed := fun hne => absurd rfl hne
  clean := fun _ hne => absurd rfl hne
  preferred := fun hne => absurd rfl hne
  kept := fun dead => (Assignments.promote_eq_none h).resolve_left dead
  wellFormed := wf

theorem PartitionAssignment.WellFormed.failedOver_some (wf : pa.WellFormed)
    (h : Assignments.promote unclean alive pa = some pa') :
    pa.FailedOver unclean alive pa' := by
  obtain ⟨dead, halive, hreplicas, hfrom⟩ := Assignments.promote_eq_some h
  refine
    { untouched := fun hold => absurd hold dead
      replicas := hreplicas
      changed := fun _ => halive
      clean := ?_
      preferred := ?_
      kept := fun hdead => absurd halive hdead
      wellFormed := wf.promote h }
  · intro hclean _
    rcases hfrom with hisr | ⟨hunclean, -⟩
    · exact hisr
    · rw [hclean] at hunclean
      cases hunclean
  · intro _ hsome
    rcases hfrom with hisr | ⟨-, -, hnone⟩
    · exact hisr
    · obtain ⟨id, hid, hidAlive⟩ := hsome
      exact absurd hidAlive (hnone id hid)

/-- A pass over well-formed assignments is clean, does no more and no less than it should,
and leaves nothing for a second pass. -/
theorem failover_clean_minimal_idempotent (unclean : Bool) (alive : AliveIds) {a : Assignments}
    (wf : a.WellFormed) : a.FailedOver unclean alive (a.checkPartitionFailover unclean alive) := by
  refine ⟨?_, ?_, Assignments.failover_entries_nodup, Assignments.failover_failover⟩
  · intro key
    rw [Assignments.getElem?_failover]
    cases hpa : a[key]? with
    | none => exact Option.Rel.none
    | some pa =>
        apply Option.Rel.some
        change pa.FailedOver unclean alive ((Assignments.promote unclean alive pa).getD pa)
        cases hpromote : Assignments.promote unclean alive pa with
        | none => exact (wf key pa hpa).failedOver_none hpromote
        | some pa' => exact (wf key pa hpa).failedOver_some hpromote
  · intro e
    exact Assignments.mem_failover_entries_iff

/-- Broker 1 is dead: the partition that has an in-sync successor gets it, the other one
keeps its leader. -/
theorem failover_clean_minimal_idempotent_two :
    ∃ a : Assignments, a.WellFormed ∧ a[(([116], 0) : TopicPartition)]? = some ⟨1, [1, 2], [1, 2]⟩ ∧
      a[(([116], 1) : TopicPartition)]? = some ⟨1, [1, 3], [1]⟩ ∧
      a.FailedOver false .twoThree (a.checkPartitionFailover false .twoThree) := by
  let a : Assignments := Assignments.applyLeaderAndIsr ∅
    [⟨[116], 0, 1, [1, 2], [1, 2]⟩, ⟨[116], 1, 1, [1, 3], [1]⟩]
  have wf : a.WellFormed := by
    intro key pa hpa
    refine Assignments.forall_applyLeaderAndIsr wellFormed_empty ?_ hpa
    intro key pa hmem
    rcases List.mem_cons.mp hmem with heq | hmem
    · have hpa : pa = ⟨1, [1, 2], [1, 2]⟩ := congrArg LeaderAndISREntry.assignment heq
      rw [hpa]
      exact ⟨by decide, by decide, by decide⟩
    · have hpa : pa = ⟨1, [1, 3], [1]⟩ :=
        congrArg LeaderAndISREntry.assignment (List.mem_singleton.mp hmem)
      rw [hpa]
      exact ⟨by decide, by decide, by decide⟩
  exact ⟨a, wf, by decide, by decide, failover_clean_minimal_idempotent false .twoThree wf⟩

end MiniKafka.Cluster
