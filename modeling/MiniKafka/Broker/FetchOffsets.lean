import MiniKafka.Broker.Reconciliation
import MiniKafka.Protocol.Requests
import MiniKafka.Storage.StartOffset

/-!
# The offsets of the two fetches

`handle_fetch` and `handle_replicate` cast the offset of the request, a `uint64_t`, to the
`int64_t` that the partition reads from, and do not check its range.
-/

namespace MiniKafka.Broker

open Cluster Common Protocol Storage

/-- What a handler sees of the cluster: `assignment_for` of the partition that is asked for,
and the peers table. -/
structure ClusterView where
  assignment : Option PartitionAssignment
  addressOf : AddressOf

/-- The check both handlers begin with; there is none in the standalone mode. -/
def leaderCheck (id : BrokerId) : Option ClusterView → Option FetchResponse
  | none => none
  | some cluster =>
      match cluster.assignment with
      | none =>
          some { errorCode := .unknownTopic, highWatermark := 0, records := [], leaderHost := [],
                 leaderPort := 0 }
      | some assignment =>
          if assignment.leaderId ≠ id then
            let addr := cluster.addressOf assignment.leaderId
            some { errorCode := .notLeaderForPartition, highWatermark := 0, records := [],
                   leaderHost := (addr.map Address.host).getD [],
                   leaderPort := (addr.map fun a => a.port.toUInt32).getD 0 }
          else none

variable (id : BrokerId) (cluster : Option ClusterView) (partition : Partition)

/-- `handle_fetch`, from the decoded request on. -/
def handleFetch (req : FetchRequest) : FetchResponse :=
  match leaderCheck id cluster with
  | some resp => resp
  | none =>
      { errorCode := .none
        highWatermark := UInt64.ofInt partition.hwm
        records := partition.read (toI64 req.fetchOffset) req.maxBytes
        leaderHost := []
        leaderPort := 0 }

/-- `handle_replicate`, from the decoded request on. The high watermark is read once
`on_replica_fetch` has returned. -/
def handleReplicate (highWatermark : Int) (req : ReplicaFetchRequest) : FetchResponse :=
  match leaderCheck id cluster with
  | some resp => resp
  | none =>
      { errorCode := .none
        highWatermark := UInt64.ofInt highWatermark
        records := partition.readUpToLeo (toI64 req.fetchOffset) req.maxBytes
        leaderHost := []
        leaderPort := 0 }

variable {id cluster partition} {maxSegBytes : UInt32}

theorem leaderCheck_records {resp : FetchResponse} (h : leaderCheck id cluster = some resp) :
    resp.records = [] := by
  cases cluster with
  | none => cases h
  | some view =>
      cases hassignment : view.assignment with
      | none =>
          simp only [leaderCheck, hassignment] at h
          cases h
          rfl
      | some assignment =>
          simp only [leaderCheck, hassignment] at h
          split at h
          · cases h
            rfl
          · cases h

/-- A fetch answers with nothing before its offset, and with nothing at all from its clamp on,
exactly if it is refused, or its offset fits an `int64_t`, or there is nothing to read below
the clamp. -/
theorem fetch_from_offset_iff (hmax : 1 ≤ maxSegBytes)
    (h : Reached maxSegBytes (.running partition)) (id : BrokerId)
    (cluster : Option ClusterView) :
    (∀ req : FetchRequest,
      ReadsFrom req.fetchOffset partition.hwm (handleFetch id cluster partition req).records ↔
        leaderCheck id cluster ≠ none ∨ req.fetchOffset.toNat < 2 ^ 63 ∨
          partition.hwm ≤ 0 ∨ partition.records = []) ∧
    ∀ (highWatermark : Int) (req : ReplicaFetchRequest),
      ReadsFrom req.fetchOffset partition.logEndOffset
          (handleReplicate id cluster partition highWatermark req).records ↔
        leaderCheck id cluster ≠ none ∨ req.fetchOffset.toNat < 2 ^ 63 ∨
          partition.records = [] := by
  obtain ⟨hp, -, hlt⟩ := h.partition hmax
  cases hcheck : leaderCheck id cluster with
  | some resp =>
      have hnil := leaderCheck_records hcheck
      constructor
      · intro req
        simp only [handleFetch, hcheck, hnil, ne_eq, reduceCtorEq, not_false_eq_true, true_or,
          iff_true]
        exact readsFrom_nil
      · intro highWatermark req
        simp only [handleReplicate, hcheck, hnil, ne_eq, reduceCtorEq, not_false_eq_true,
          true_or, iff_true]
        exact readsFrom_nil
  | none =>
      constructor
      · intro req
        simp only [handleFetch, hcheck, ne_eq, not_true_eq_false, false_or]
        exact hp.readsFrom_iff hlt
      · intro highWatermark req
        have hempty : partition.logEndOffset ≤ 0 ↔ partition.records = [] := by
          rw [hp.logEndOffset hlt, ← List.length_eq_zero_iff]
          omega
        have hreads : ReadsFrom req.fetchOffset partition.logEndOffset
            (partition.readUpToLeo (toI64 req.fetchOffset) req.maxBytes) ↔ _ :=
          hp.readsFrom_iff hlt
        simp only [handleReplicate, hcheck, ne_eq, not_true_eq_false, false_or]
        rw [hreads, hempty, or_self_iff]

/-- The two records of the small partition, asked for from its end on. -/
theorem fetch_from_offset_small :
    ReadsFrom 2 smallPartition.hwm
      (handleFetch 1 none smallPartition
        { topic := [116], fetchOffset := 2, maxBytes := 1048576 }).records := by
  have hiff := (fetch_from_offset_iff (by decide) reached_small 1 none).1
    { topic := [116], fetchOffset := 2, maxBytes := 1048576 }
  exact hiff.mpr (Or.inr (Or.inl (by decide)))

/-- The offset `2 ^ 64 - 1` is `-1` as a start, so both fetches of a partition with two records
answer with its first record. -/
theorem negative_start_reads_front : ¬ ∀ partition, Reached 30 (.running partition) →
    (∀ req : FetchRequest, ReadsFrom req.fetchOffset partition.hwm
      (handleFetch 1 none partition req).records) ∧
    ∀ req : ReplicaFetchRequest, ReadsFrom req.fetchOffset partition.logEndOffset
      (handleReplicate 1 none partition partition.hwm req).records := by
  intro hall
  have hreads := (hall smallPartition reached_small).1
    { topic := [116], fetchOffset := 18446744073709551615, maxBytes := 1048576 }
  have hbeyond : smallPartition.hwm ≤ (18446744073709551615 : UInt64).toNat := by decide +kernel
  have hnil := hreads.beyond hbeyond
  revert hnil
  decide +kernel

end MiniKafka.Broker
