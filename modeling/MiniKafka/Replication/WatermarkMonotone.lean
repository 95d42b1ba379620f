import MiniKafka.Foundations.Run
import MiniKafka.Replication.IsrManager

/-!
# When the high watermark goes back

One partition during a leadership, seen by the whole steps of `IsrManager`: a produce with
its reclamp, a fetch of a replica, a tick of the sweep. Every step ends with a recompute,
which takes the high watermark from the followers it finds in sync and not from the one
before.
-/

namespace MiniKafka.Replication

open Cluster Foundations Storage

structure LeadingPartition where
  log : ReplicaLog
  st : PartitionState

inductive LeadingEvent
  /-- `append` and `on_leader_append`. -/
  | produce (ts : UInt64) (records : List ProducerRecord) (now : UInt64)
  | onReplicaFetch (replicaId : BrokerId) (fetchOffset : Nat) (now : UInt64)
  | sweep (now : UInt64)

namespace LeadingPartition

/-- `reconcile_replication` on the broker that was promoted, before `set_leading`. -/
def promoted (log : ReplicaLog) (st : PartitionState) : LeadingPartition :=
  ⟨log.setHighWatermark log.logEndOffset, st⟩

def recompute (c : LeadingPartition) (selfBrokerId : BrokerId) (now : UInt64) :
    LeadingPartition :=
  let r := c.st.recompute selfBrokerId c.log.logEndOffset now
  ⟨c.log.setHighWatermark r.hwm, { c.st with isr := r.isr }⟩

/-- What the recompute of an event meets, and the time it reads. -/
def before (c : LeadingPartition) : LeadingEvent → LeadingPartition × UInt64
  | .produce ts records now => ({ c with log := (c.log.append ts records).1 }, now)
  | .onReplicaFetch replicaId fetchOffset now =>
      ({ c with st := c.st.recordFetch replicaId fetchOffset now }, now)
  | .sweep now => (c, now)

/-- A fetch is by a replica of the partition, from an offset up to the log end. -/
def Admits (c : LeadingPartition) : LeadingEvent → Prop
  | .onReplicaFetch replicaId fetchOffset _ =>
      replicaId ∈ c.st.replicas ∧ fetchOffset ≤ c.log.logEndOffset
  | _ => True

instance decidableAdmits (c : LeadingPartition) : ∀ e, Decidable (c.Admits e)
  | .onReplicaFetch _ _ _ => inferInstanceAs (Decidable (_ ∧ _))
  | .produce _ _ _ | .sweep _ => .isTrue trivial

end LeadingPartition

def leadingStep (selfBrokerId : BrokerId) (c : LeadingPartition) (e : LeadingEvent) :
    Option LeadingPartition :=
  if c.Admits e then
    let (c, now) := c.before e
    some (c.recompute selfBrokerId now)
  else none

/-- No follower that the recompute finds in sync is behind the high watermark. -/
def InSyncAboveWatermark (selfBrokerId : BrokerId) (c : LeadingPartition)
    (e : LeadingEvent) : Prop :=
  ∀ id ∈ (c.before e).1.st.replicas, id ≠ selfBrokerId →
    (c.before e).1.st.inSync (c.before e).1.log.logEndOffset (c.before e).2 id = true →
      ∀ progress ∈ (c.before e).1.st.followerProgress id, c.log.hwm ≤ progress

instance (me : BrokerId) (c : LeadingPartition) (e : LeadingEvent) :
    Decidable (InSyncAboveWatermark me c e) :=
  List.decidableBAll (fun id => id ≠ me →
    (c.before e).1.st.inSync (c.before e).1.log.logEndOffset (c.before e).2 id = true →
      ∀ progress ∈ (c.before e).1.st.followerProgress id, c.log.hwm ≤ progress)
    (c.before e).1.st.replicas

variable {me : BrokerId} {c c' : LeadingPartition} {e : LeadingEvent} {st : PartitionState}
  {leo h : Nat} {now : UInt64} {isr : List BrokerId}

/-- A bound on the watermark is one on the log end and on every follower of the set. -/
theorem PartitionState.le_newHwm_iff :
    h ≤ st.newHwm me leo isr ↔
      h ≤ leo ∧ ∀ id ∈ isr, id ≠ me → ∀ progress ∈ st.followerProgress id, h ≤ progress := by
  unfold PartitionState.newHwm
  induction isr generalizing leo with
  | nil => simp
  | cons id isr ih =>
      rw [List.foldl_cons, ih, List.forall_mem_cons]
      by_cases hid : id = me
      · simp [hid]
      · rw [if_neg hid]
        cases hp : st.followerProgress id with
        | none => simp [hid]
        | some progress =>
            simp only [Option.getD_some, Nat.le_min, Option.mem_some_iff, forall_eq', hid,
              ne_eq, not_false_eq_true, forall_true_left, and_assoc]

/-- A recompute keeps the watermark above a bound exactly when every follower that it
finds in sync is above it. -/
theorem PartitionState.le_recompute_iff :
    h ≤ (st.recompute me leo now).hwm ↔
      h ≤ leo ∧ ∀ id ∈ st.replicas, id ≠ me → st.inSync leo now id = true →
        ∀ progress ∈ st.followerProgress id, h ≤ progress := by
  change h ≤ st.newHwm me leo (st.newIsr me leo now) ↔ _
  rw [PartitionState.le_newHwm_iff]
  refine and_congr_right fun _ => ?_
  constructor
  · intro hisr id hid hne hsync
    exact hisr id (PartitionState.mem_newIsr.mpr ⟨hid, .inr hsync⟩) hne
  · intro hsync id hid hne
    obtain ⟨hmem, hin⟩ := PartitionState.mem_newIsr.mp hid
    exact hsync id hmem hne (hin.resolve_left hne)

theorem leadingStep_eq_some (hstep : leadingStep me c e = some c') :
    c' = (c.before e).1.recompute me (c.before e).2 := by
  unfold leadingStep at hstep
  split at hstep
  · exact (Option.some.inj hstep).symm
  · cases hstep

/-- Before the recompute the log end can only have moved forward. -/
theorem logEnd_le_before : c.log.logEndOffset ≤ (c.before e).1.log.logEndOffset := by
  cases e with
  | produce ts records now =>
      change c.log.nextOffset ≤ (c.log.append ts records).1.nextOffset
      rw [ReplicaLog.append_nextOffset]
      exact Nat.le_add_right _ _
  | onReplicaFetch replicaId fetchOffset now => exact le_refl _
  | sweep now => exact le_refl _

theorem leadingStep_hwm_le_logEnd (hstep : leadingStep me c e = some c') :
    c'.log.hwm ≤ c'.log.logEndOffset := by
  rw [leadingStep_eq_some hstep]
  exact PartitionState.newHwm_le_leo

theorem leadingStep_keeps_iff (hend : c.log.hwm ≤ c.log.logEndOffset)
    (hstep : leadingStep me c e = some c') :
    c.log.hwm ≤ c'.log.hwm ↔ InSyncAboveWatermark me c e := by
  rw [leadingStep_eq_some hstep]
  change c.log.hwm ≤ ((c.before e).1.st.recompute me (c.before e).1.log.logEndOffset
    (c.before e).2).hwm ↔ _
  rw [PartitionState.le_recompute_iff]
  exact and_iff_right (hend.trans logEnd_le_before)

/-- In every run of a leadership, the high watermark never falls below an earlier one
exactly when no recompute finds a follower in sync that is behind the watermark. -/
theorem watermark_monotone_iff {log : ReplicaLog} {st : PartitionState}
    {visits : List (LeadingPartition × LeadingEvent)}
    (run : Run (leadingStep me) (.promoted log st) visits c) :
    (visits.map (fun v => v.1.log.hwm) ++ [c.log.hwm]).Pairwise (· ≤ ·) ↔
      Guarded (InSyncAboveWatermark me) visits := by
  have hstart : (LeadingPartition.promoted log st).log.hwm ≤
      (LeadingPartition.promoted log st).log.logEndOffset := le_refl _
  have hend : ∀ v ∈ visits, v.1.log.hwm ≤ v.1.log.logEndOffset := by
    intro v hv
    obtain ⟨_, _, _, -, hrun, -⟩ := run.visited hv
    exact hrun.always hstart fun _ _ _ _ hstep => leadingStep_hwm_le_logEnd hstep
  rw [run.monotone_iff fun c => c.log.hwm]
  constructor
  · intro hmono v hv
    obtain ⟨_, _, u, -, -, hstep⟩ := run.visited hv
    exact (leadingStep_keeps_iff (hend v hv) hstep).mp (hmono v hv u hstep)
  · intro hguard v hv u hstep
    exact (leadingStep_keeps_iff (hend v hv) hstep).mpr (hguard v hv)

/-- Leader 1 of two brokers, with nothing in the log. -/
def soleLeader : LeadingPartition := .promoted {} { replicas := [1, 2], isr := [1, 2] }

/-- The follower fetches beyond each record before the next one is produced. -/
def followerKeepsUp : List LeadingEvent :=
  [.onReplicaFetch 2 0 0, .produce 0 [⟨[], [1]⟩] 0, .onReplicaFetch 2 1 10,
    .produce 20 [⟨[], [2]⟩] 20, .onReplicaFetch 2 2 30]

theorem watermark_monotone_follower :
    ∃ visits c, Run (leadingStep 1) soleLeader visits c ∧
      visits.map (fun v => v.1.log.hwm) ++ [c.log.hwm] = [0, 0, 0, 1, 1, 2] ∧
      (visits.map (fun v => v.1.log.hwm) ++ [c.log.hwm]).Pairwise (· ≤ ·) := by
  obtain ⟨c, hc⟩ := Option.isSome_iff_exists.mp
    (show (execute (leadingStep 1) soleLeader followerKeepsUp).isSome by decide)
  have seen : (execute (leadingStep 1) soleLeader followerKeepsUp).map
      (fun c => c.log.hwm) = some 2 := by decide
  rw [hc] at seen
  have hend : c.log.hwm = 2 := Option.some.inj seen
  refine ⟨_, c, run_of_execute hc, ?_, ?_⟩
  · rw [hend]
    decide
  · exact (watermark_monotone_iff (run_of_execute hc)).mpr (by decide)

/-- The follower has fetched nothing when the record is produced, and its fetch after
that brings it back with a lag of one. -/
def followerRejoins : List LeadingEvent :=
  [.produce 0 [⟨[], [1]⟩] 0, .onReplicaFetch 2 0 10]

/-- A follower that rejoins takes the high watermark back. -/
theorem watermark_goes_back :
    ¬ ∀ (me : BrokerId) (log : ReplicaLog) (st : PartitionState)
      (visits : List (LeadingPartition × LeadingEvent)) (c : LeadingPartition),
      Run (leadingStep me) (.promoted log st) visits c →
      (visits.map (fun v => v.1.log.hwm) ++ [c.log.hwm]).Pairwise (· ≤ ·) := by
  intro claim
  obtain ⟨c, hc⟩ := Option.isSome_iff_exists.mp
    (show (execute (leadingStep 1) soleLeader followerRejoins).isSome by decide)
  have seen : (execute (leadingStep 1) soleLeader followerRejoins).map
      (fun c => c.log.hwm) = some 0 := by decide
  rw [hc] at seen
  have hend : c.log.hwm = 0 := Option.some.inj seen
  have hmono := claim 1 _ _ _ c (run_of_execute hc)
  rw [hend] at hmono
  exact absurd hmono (by decide)

end MiniKafka.Replication
