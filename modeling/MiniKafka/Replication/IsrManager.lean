import MiniKafka.Cluster.ElectionState
import MiniKafka.Storage.ReplicaLog
import Mathlib.Data.List.Sort
import Mathlib.Logic.Function.Basic

/-!
# The in-sync set of a led partition

One `PartitionState` of `IsrManager` and what `recompute` makes of it. Offsets are
numbers; times are `uint64_t` milliseconds, whose difference wraps as in the code.
-/

namespace MiniKafka.Replication

open Cluster Storage

def kReplicaLagTimeMs : UInt64 := 1000

def kReplicaMaxLagMessages : Nat := 1000

structure PartitionState where
  replicas : List BrokerId := []
  isr : List BrokerId := []
  /-- The last fetch offset of each replica. -/
  followerProgress : BrokerId → Option Nat := fun _ => none
  lastFetchMs : BrokerId → Option UInt64 := fun _ => none

namespace PartitionState

/-- `set_leading` on what the map holds for the partition, if anything. -/
def setLeading (st : Option PartitionState) (replicas : List BrokerId) : PartitionState :=
  let st := { st.getD {} with replicas := replicas }
  if st.isr = [] then { st with isr := st.replicas } else st

/-- What `on_replica_fetch` records before it recomputes. -/
def recordFetch (st : PartitionState) (replicaId : BrokerId) (fetchOffset : Nat)
    (now : UInt64) : PartitionState :=
  { st with
    followerProgress := Function.update st.followerProgress replicaId (some fetchOffset)
    lastFetchMs := Function.update st.lastFetchMs replicaId (some now) }

/-- A follower that fetched recently and lags little is in sync. -/
def inSync (st : PartitionState) (leo : Nat) (now : UInt64) (id : BrokerId) : Bool :=
  match st.followerProgress id, st.lastFetchMs id with
  | some progress, some time =>
      let timeOk := now - time ≤ kReplicaLagTimeMs
      let lagOk := leo ≥ progress ∧ leo - progress ≤ kReplicaMaxLagMessages
      timeOk ∧ lagOk
  | _, _ => false

def newIsr (st : PartitionState) (selfBrokerId : BrokerId) (leo : Nat) (now : UInt64) :
    List BrokerId :=
  (st.replicas.filter fun id => id = selfBrokerId ∨ st.inSync leo now id).insertionSort (· ≤ ·)

/-- The least progress in an in-sync set, and at most the log end. -/
def newHwm (st : PartitionState) (selfBrokerId : BrokerId) (leo : Nat)
    (isr : List BrokerId) : Nat :=
  isr.foldl (fun hwm id =>
    if id = selfBrokerId then hwm else min hwm ((st.followerProgress id).getD hwm)) leo

/-- What a `recompute` computes from the log end and the time it reads. -/
structure Recomputed where
  isr : List BrokerId
  hwm : Nat
  deriving DecidableEq, Repr

def recompute (st : PartitionState) (selfBrokerId : BrokerId) (leo : Nat) (now : UInt64) :
    Recomputed :=
  let isr := st.newIsr selfBrokerId leo now
  ⟨isr, st.newHwm selfBrokerId leo isr⟩

variable {st : PartitionState} {self id : BrokerId} {leo : Nat} {now : UInt64}
  {isr : List BrokerId}

@[simp] theorem setLeading_progress (old : Option PartitionState) (replicas : List BrokerId) :
    (setLeading old replicas).followerProgress = (old.getD {}).followerProgress := by
  simp only [setLeading]
  split <;> rfl

theorem recordFetch_progress (replicaId : BrokerId) (fetchOffset : Nat) :
    (st.recordFetch replicaId fetchOffset now).followerProgress id =
      if id = replicaId then some fetchOffset else st.followerProgress id := by
  simp [recordFetch, Function.update_apply]

theorem mem_newIsr :
    id ∈ st.newIsr self leo now ↔
      id ∈ st.replicas ∧ (id = self ∨ st.inSync leo now id = true) := by
  simp [newIsr]

theorem inSync_progress (h : st.inSync leo now id = true) :
    ∃ p, st.followerProgress id = some p ∧ p ≤ leo := by
  unfold inSync at h
  split at h
  · next p time hp ht =>
      simp only [decide_eq_true_eq] at h
      exact ⟨p, hp, h.2.1⟩
  · cases h

theorem newHwm_le_leo : st.newHwm self leo isr ≤ leo := by
  unfold newHwm
  induction isr generalizing leo with
  | nil => exact le_refl _
  | cons id isr ih =>
      simp only [List.foldl_cons]
      split
      · exact ih
      · exact ih.trans (min_le_left _ _)

/-- The high watermark is at most the progress of every in-sync follower. -/
theorem newHwm_le_progress {p : Nat} (hid : id ∈ isr) (hself : id ≠ self)
    (hp : st.followerProgress id = some p) : st.newHwm self leo isr ≤ p := by
  unfold newHwm
  induction isr generalizing leo with
  | nil => simp at hid
  | cons other isr ih =>
      simp only [List.foldl_cons]
      rcases List.mem_cons.mp hid with rfl | hid
      · rw [if_neg hself, hp]
        exact newHwm_le_leo.trans (min_le_right _ _)
      · exact ih hid

theorem recompute_progress (hid : id ∈ (st.recompute self leo now).isr) (hself : id ≠ self) :
    ∃ p, st.followerProgress id = some p ∧ (st.recompute self leo now).hwm ≤ p := by
  obtain ⟨-, hsync⟩ := mem_newIsr.mp hid
  obtain ⟨p, hp, -⟩ := inSync_progress (hsync.resolve_left hself)
  exact ⟨p, hp, newHwm_le_progress hid hself hp⟩

end PartitionState

end MiniKafka.Replication
