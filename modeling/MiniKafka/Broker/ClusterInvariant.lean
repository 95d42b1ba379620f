import MiniKafka.Broker.NodeInvariant
import MiniKafka.Broker.PartitionCluster

/-!
# What holds in every run of the cluster on a partition

As long as fetched batches are appended where they start, every log is dense and only
grows, and every batch in flight is a run of records from an offset that its follower
has reached.
-/

namespace MiniKafka.Broker

open Cluster Foundations Replication Storage

variable {controller b : BrokerId} {c c' : PartitionCluster} {e : ClusterEvent}

/-- A fetched batch is appended where it starts: no other thread of its broker has
written to the log since it was asked for. -/
def BatchesAtEnd (c : PartitionCluster) : ClusterEvent → Prop
  | .broker b e => AppendsAtEnd (c.nodes b) e
  | _ => True

instance (c : PartitionCluster) : ∀ e, Decidable (BatchesAtEnd c e)
  | .broker b e => inferInstanceAs (Decidable (AppendsAtEnd (c.nodes b) e))
  | .updateIsr _ | .checkPartitionFailover _ => .isTrue trivial

/-- The records a step adds to the log of `v`. -/
def PartitionCluster.writes (c : PartitionCluster) (v : BrokerId) :
    ClusterEvent → List LogEntry
  | .broker b e => if v = b then (c.nodes b).writes e else []
  | _ => []

/-- A step is one of a broker, a stored report, or a promotion. -/
theorem clusterStep_cases (h : clusterStep controller c e = some c') :
    (∃ b ne n sent, e = .broker b ne ∧ c.delivered controller b ne = true ∧
      nodeStep b (c.nodes b) ne = some (n, sent) ∧ c' = c.advance controller b ne n sent) ∨
    (∃ isr pa, e = .updateIsr isr ∧ isr ∈ c.reports ∧
      (c.nodes controller).assignment = some pa ∧
      c' = c.store controller { pa with isr := isr }) ∨
    (∃ alive pa pa', e = .checkPartitionFailover alive ∧
      (c.nodes controller).assignment = some pa ∧
      Assignments.promote false alive pa = some pa' ∧ c' = c.promoted controller pa') ∨
    ((∀ v, c.writes v e = []) ∧ c' = c) := by
  cases e with
  | broker b ne =>
      simp only [clusterStep] at h
      split at h
      · next hdelivered =>
          obtain ⟨⟨n, sent⟩, hstep, rfl⟩ := Option.map_eq_some_iff.mp h
          exact Or.inl ⟨b, ne, n, sent, rfl, hdelivered, hstep, rfl⟩
      · cases h
  | updateIsr isr =>
      simp only [clusterStep] at h
      split at h
      · next pa hpa =>
          split at h
          · next hreport =>
              obtain rfl := Option.some.inj h
              exact Or.inr (Or.inl ⟨isr, pa, rfl, hreport, hpa, rfl⟩)
          · cases h
      · cases h
  | checkPartitionFailover alive =>
      simp only [clusterStep] at h
      split at h
      · next pa hpa =>
          split at h
          · next pa' hpa' =>
              obtain rfl := Option.some.inj h
              exact Or.inr (Or.inr (Or.inl ⟨alive, pa, pa', rfl, hpa, hpa', rfl⟩))
          · obtain rfl := Option.some.inj h
            exact Or.inr (Or.inr (Or.inr ⟨fun _ => rfl, rfl⟩))
      · cases h

structure ClusterInv (c : PartitionCluster) : Prop where
  nodes : ∀ b, NodeInv b (c.nodes b)
  responses : ∀ leader f batch, (leader, f, batch) ∈ c.responses →
    Contiguous batch.fetchOffset batch.records
  requests : ∀ f leader offset, (f, leader, offset) ∈ c.requests →
    offset ≤ (c.log f).nextOffset
  checked : ∀ b f offset, .checked f offset ∈ (c.nodes b).handlers →
    offset ≤ (c.log f).nextOffset
  read : ∀ b f batch, .read f batch ∈ (c.nodes b).handlers →
    batch.fetchOffset ≤ (c.log f).nextOffset

theorem log_advance {v : BrokerId} {ne : NodeEvent} {n : ReplicaNode} {sent : Effects} :
    (c.advance controller b ne n sent).log v = if v = b then n.log else c.log v := by
  by_cases hv : v = b
  · subst hv
    simp [PartitionCluster.log, PartitionCluster.advance]
  · simp [PartitionCluster.log, PartitionCluster.advance, hv]

/-- The controller's decisions change its assignment only. -/
theorem node_store (c : PartitionCluster) (controller : BrokerId) (pa : PartitionAssignment)
    (v : BrokerId) :
    ∃ assignment, (c.store controller pa).nodes v =
      { c.nodes v with assignment := assignment } := by
  by_cases hv : v = controller
  · subst hv
    exact ⟨some pa, by simp [PartitionCluster.store]⟩
  · exact ⟨(c.nodes v).assignment, by simp [PartitionCluster.store, hv]⟩

theorem log_store (pa : PartitionAssignment) (v : BrokerId) :
    (c.store controller pa).log v = c.log v := by
  obtain ⟨assignment, h⟩ := node_store c controller pa v
  rw [PartitionCluster.log, h]
  rfl

theorem handlers_store (pa : PartitionAssignment) (v : BrokerId) :
    ((c.store controller pa).nodes v).handlers = (c.nodes v).handlers := by
  obtain ⟨assignment, h⟩ := node_store c controller pa v
  rw [h]

theorem ClusterInv.store (inv : ClusterInv c) (pa : PartitionAssignment) :
    ClusterInv (c.store controller pa) where
  nodes v := by
    obtain ⟨assignment, h⟩ := node_store c controller pa v
    have hv := inv.nodes v
    rw [h]
    exact ⟨hv.dense, hv.watermark, hv.untracked, hv.threads, hv.handlers, hv.received⟩
  responses := inv.responses
  requests f leader offset h := by
    rw [log_store]
    exact inv.requests f leader offset h
  checked v f offset h := by
    rw [log_store]
    exact inv.checked v f offset (handlers_store (c := c) pa v ▸ h)
  read v f batch h := by
    rw [log_store]
    exact inv.read v f batch (handlers_store (c := c) pa v ▸ h)

theorem ClusterInv.hears (inv : ClusterInv c) {ne : NodeEvent}
    (h : c.delivered controller b ne = true) : HearsRuns ne := by
  cases ne with
  | receiveFetch i sender batch => exact inv.responses sender b batch (of_decide_eq_true h)
  | _ => trivial

theorem ClusterInv.grows (inv : ClusterInv c) (atEnd : BatchesAtEnd c e)
    (h : clusterStep controller c e = some c') (v : BrokerId) :
    Grows (c.log v) (c'.log v) (c.writes v e) := by
  have still : Grows (c.log v) (c.log v) [] := grows_refl rfl rfl
  rcases clusterStep_cases h with ⟨b, ne, n, sent, rfl, hdelivered, hstep, rfl⟩ |
    ⟨isr, pa, rfl, -, -, rfl⟩ | ⟨alive, pa, pa', rfl, -, -, rfl⟩ | ⟨hwrites, rfl⟩
  · rw [log_advance]
    simp only [PartitionCluster.writes]
    split
    · next hv =>
        subst hv
        exact ((inv.nodes v).step atEnd (inv.hears hdelivered) hstep).2
    · exact still
  · rw [log_store]
    exact still
  · change Grows (c.log v) ((c.store controller pa').log v) []
    rw [log_store]
    exact still
  · rw [hwrites v]
    exact still

theorem ClusterInv.step (inv : ClusterInv c) (atEnd : BatchesAtEnd c e)
    (h : clusterStep controller c e = some c') : ClusterInv c' := by
  have later : ∀ f offset, offset ≤ (c.log f).nextOffset → offset ≤ (c'.log f).nextOffset := by
    intro f offset hle
    rw [(inv.grows atEnd h f).next]
    exact Nat.le_add_right_of_le hle
  rcases clusterStep_cases h with ⟨b, ne, n, sent, rfl, hdelivered, hstep, rfl⟩ |
    ⟨isr, pa, rfl, -, -, rfl⟩ | ⟨alive, pa, pa', rfl, -, -, rfl⟩ | ⟨-, rfl⟩
  · have trace := nodeStep_trace hstep
    have hnode : ∀ v, (c.advance controller b ne n sent).nodes v =
        if v = b then n else c.nodes v := fun v => by
      simp [PartitionCluster.advance, Function.update_apply]
    have hasked : ∀ f offset, ne = .checkFetch f offset → offset ≤ (c.log f).nextOffset := by
      rintro f offset rfl
      exact inv.requests f b offset (of_decide_eq_true hdelivered)
    refine ⟨fun v => ?_, fun leader f batch hmem => ?_, fun f leader offset hmem => ?_,
      fun v f offset hmem => ?_, fun v f batch hmem => ?_⟩
    · rw [hnode]
      split
      · next hv =>
          subst hv
          exact ((inv.nodes v).step atEnd (inv.hears hdelivered) hstep).1
      · exact inv.nodes v
    · rcases List.mem_append.mp hmem with hmem | hmem
      · obtain ⟨⟨f', batch'⟩, hsent, heq⟩ := List.mem_map.mp hmem
        obtain ⟨rfl, rfl, rfl⟩ : b = leader ∧ f' = f ∧ batch' = batch := by simpa using heq
        exact (inv.nodes b).handlers f' batch' (trace.responses f' batch' hsent)
      · exact inv.responses leader f batch hmem
    · rcases List.mem_append.mp hmem with hmem | hmem
      · obtain ⟨⟨l', o'⟩, hsent, heq⟩ := List.mem_map.mp hmem
        obtain ⟨rfl, rfl, rfl⟩ : b = f ∧ l' = leader ∧ o' = offset := by simpa using heq
        exact later b o' (trace.requests l' o' hsent).le
      · exact later f offset (inv.requests f leader offset hmem)
    · rw [hnode] at hmem
      split at hmem
      · rcases trace.checked f offset hmem with hold | hnew
        · exact later f offset (inv.checked b f offset hold)
        · exact later f offset (hasked f offset hnew)
      · exact later f offset (inv.checked v f offset hmem)
    · rw [hnode] at hmem
      split at hmem
      · rcases trace.read f batch hmem with hold | hnew
        · exact later f _ (inv.read b f batch hold)
        · exact later f _ (inv.checked b f _ hnew)
      · exact later f _ (inv.read v f batch hmem)
  · exact inv.store { pa with isr := isr }
  · have hstore : ClusterInv (c.store controller pa') := inv.store pa'
    obtain ⟨hnodes, hresp, hreq, hchecked, hread⟩ := hstore
    exact ⟨hnodes, hresp, hreq, hchecked, hread⟩
  · exact inv

theorem clusterInv_boot (pa : PartitionAssignment) :
    ClusterInv (PartitionCluster.boot controller pa) := by
  have hnode : ∀ b, ∃ assignment, (PartitionCluster.boot controller pa).nodes b =
      { assignment := assignment } := by
    intro b
    by_cases hb : b = controller
    · exact ⟨some pa, by simp [PartitionCluster.boot, hb]⟩
    · exact ⟨none, by simp [PartitionCluster.boot, hb]⟩
  refine ⟨fun b => ?_, by simp [PartitionCluster.boot], by simp [PartitionCluster.boot],
    fun b f offset h => ?_, fun b f batch h => ?_⟩
  · obtain ⟨assignment, hb⟩ := hnode b
    rw [hb]
    exact ⟨⟨trivial, rfl⟩, watermarkInv_boot {} {}, fun _ => ⟨rfl, rfl⟩, fun _ => trivial,
      by simp, by simp [ReplicaNode.received]⟩
  · obtain ⟨assignment, hb⟩ := hnode b
    simp [hb] at h
  · obtain ⟨assignment, hb⟩ := hnode b
    simp [hb] at h

end MiniKafka.Broker
