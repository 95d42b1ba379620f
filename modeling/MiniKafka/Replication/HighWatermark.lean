import MiniKafka.Foundations.Run
import MiniKafka.Replication.IsrManager

/-!
# What the high watermark of a led partition exposes

The threads of a leader on one partition. `Partition::append` raises the high
watermark to the log end under the lock of the partition; a recompute lowers it
again later, under the lock of `IsrManager`. A recompute itself takes the lock of the
partition twice, once for the log end and once to set the high watermark.
-/

namespace MiniKafka.Replication

open Cluster Foundations Storage

/-- Where a produce thread stands in `handle_produce`. The code keeps the size of its
batch; the batch itself is kept here for the statements. -/
inductive ProduceThread
  | idle
  | appended (base : Nat) (batch : List LogEntry) (acksAll : Bool)
  /-- `on_leader_append` has returned. -/
  | reclamped (base : Nat) (batch : List LogEntry) (acksAll : Bool)
  deriving DecidableEq

structure LedPartition where
  log : ReplicaLog
  st : PartitionState
  produce : Nat → ProduceThread := fun _ => .idle
  /-- The recompute that has read the log end and not yet set the high watermark. -/
  recomputing : Option PartitionState.Recomputed := none
  /-- What the latest recompute computed. -/
  latest : Option PartitionState.Recomputed := none
  /-- An append was made since the high watermark was last set. -/
  raised : Bool := false

inductive LeaderEvent
  | append (thread : Nat) (ts : UInt64) (records : List ProducerRecord) (acksAll : Bool)
  | onLeaderAppend (thread : Nat) (now : UInt64)
  | onReplicaFetch (replicaId : BrokerId) (fetchOffset : Nat) (now : UInt64)
  | sweep (now : UInt64)
  | setHighWatermark
  /-- `wait_for_hwm` finds the required offset below the high watermark. -/
  | waitForHwm (thread : Nat)
  | waitTimedOut (thread : Nat)
  /-- The answer to a request that waits for nothing. -/
  | answer (thread : Nat)
  | read (startOffset : Int) (maxBytes : UInt32)
  deriving DecidableEq

namespace LedPartition

/-- The first part of a recompute: the log end is read and the new set computed. -/
def startRecompute (c : LedPartition) (selfBrokerId : BrokerId) (now : UInt64) :
    LedPartition :=
  let r := c.st.recompute selfBrokerId c.log.logEndOffset now
  { c with recomputing := some r, latest := some r }

/-- The offset an acks=all request waits for, once its thread gets that far. -/
def requiredOffset (c : LedPartition) (thread : Nat) : Option Nat :=
  match c.produce thread with
  | .reclamped base batch true =>
      if batch.length > 0 then some (base + batch.length - 1) else none
  | _ => none

end LedPartition

def leaderStep (selfBrokerId : BrokerId) (c : LedPartition) : LeaderEvent → Option LedPartition
  | .append thread ts records acksAll =>
      if c.produce thread = .idle then
        let (log, base) := c.log.append ts records
        some { c with
          log := log
          produce :=
            Function.update c.produce thread (.appended base (stamp ts base records) acksAll)
          raised := c.raised || !records.isEmpty }
      else none
  | .onLeaderAppend thread now =>
      match c.recomputing, c.produce thread with
      | none, .appended base batch acksAll =>
          some { c.startRecompute selfBrokerId now with
            produce := Function.update c.produce thread (.reclamped base batch acksAll) }
      | _, _ => none
  | .onReplicaFetch replicaId fetchOffset now =>
      match c.recomputing with
      | none =>
          let st := c.st.recordFetch replicaId fetchOffset now
          some ({ c with st := st }.startRecompute selfBrokerId now)
      | some _ => none
  | .sweep now =>
      match c.recomputing with
      | none => some (c.startRecompute selfBrokerId now)
      | some _ => none
  | .setHighWatermark =>
      match c.recomputing with
      | some r => some { c with
          log := c.log.setHighWatermark r.hwm
          st := { c.st with isr := r.isr }
          recomputing := none
          raised := false }
      | none => none
  | .waitForHwm thread =>
      match c.recomputing, c.requiredOffset thread with
      | none, some required =>
          if c.log.hwm > required then
            some { c with produce := Function.update c.produce thread .idle }
          else none
      | _, _ => none
  | .waitTimedOut thread =>
      match c.requiredOffset thread with
      | some _ => some { c with produce := Function.update c.produce thread .idle }
      | none => none
  | .answer thread =>
      match c.produce thread, c.requiredOffset thread with
      | .reclamped _ _ _, none =>
          some { c with produce := Function.update c.produce thread .idle }
      | _, _ => none
  | .read _ _ => some c

abbrev LeaderRun (selfBrokerId : BrokerId) := Run (leaderStep selfBrokerId)

/-- A partition that this broker starts to lead with some log and tracking state. -/
def LedPartition.boot (log : ReplicaLog) (st : PartitionState) : LedPartition :=
  { log := log, st := st }

/-- Every follower in the set of the latest recompute has fetched beyond `offset`. -/
def Replicated (selfBrokerId : BrokerId) (c : LedPartition) (offset : Nat) : Prop :=
  ∀ r, c.latest = some r → ∀ id ∈ r.isr, id ≠ selfBrokerId →
    ∃ progress, c.st.followerProgress id = some progress ∧ offset < progress

/-- What the step exposes to a consumer or acknowledges to a producer is replicated. -/
def ExposesReplicated (selfBrokerId : BrokerId) (c : LedPartition) : LeaderEvent → Prop
  | .read startOffset maxBytes =>
      ∀ e ∈ c.log.read startOffset maxBytes, Replicated selfBrokerId c e.offset
  | .waitForHwm thread =>
      ∀ required, c.requiredOffset thread = some required → Replicated selfBrokerId c required
  | _ => True

/-- The high watermark is the one a recompute set: no append came after it, and no
recompute is between its two locks. -/
def Settled (c : LedPartition) : Prop := c.raised = false ∧ c.recomputing = none

/-- The latest recompute found no follower in sync, or there was none yet. -/
def Alone (selfBrokerId : BrokerId) (c : LedPartition) : Prop :=
  ∀ r ∈ c.latest, ∀ id ∈ r.isr, id = selfBrokerId

instance (me : BrokerId) (c : LedPartition) : Decidable (Alone me c) :=
  have (r : PartitionState.Recomputed) : Decidable (∀ id ∈ r.isr, id = me) :=
    List.decidableBAll (fun id => id = me) r.isr
  inferInstanceAs (Decidable (∀ r ∈ c.latest, ∀ id ∈ r.isr, id = me))

instance (c : LedPartition) : Decidable (Settled c) :=
  inferInstanceAs (Decidable (_ ∧ _))

/-- Reads and successful waits meet a settled high watermark, or a leader alone. -/
def ReadsSettled (selfBrokerId : BrokerId) (c : LedPartition) : LeaderEvent → Prop
  | .read _ _ | .waitForHwm _ => Settled c ∨ Alone selfBrokerId c
  | _ => True

instance decidableReadsSettled (me : BrokerId) (c : LedPartition) :
    ∀ e, Decidable (ReadsSettled me c e)
  | .read _ _ | .waitForHwm _ => inferInstanceAs (Decidable (Settled c ∨ Alone me c))
  | .append _ _ _ _ | .onLeaderAppend _ _ | .onReplicaFetch _ _ _ | .sweep _
  | .setHighWatermark | .waitTimedOut _ | .answer _ => .isTrue trivial

variable {me : BrokerId} {c c' : LedPartition}

/-- Everything a step of the leader's threads can do. -/
inductive LeaderDoes (me : BrokerId) (c : LedPartition) : LeaderEvent → LedPartition → Prop
  | append {thread ts records acksAll} (idle : c.produce thread = .idle) :
      LeaderDoes me c (.append thread ts records acksAll) { c with
        log := (c.log.append ts records).1
        produce := Function.update c.produce thread
          (.appended c.log.nextOffset (stamp ts c.log.nextOffset records) acksAll)
        raised := c.raised || !records.isEmpty }
  | onLeaderAppend {thread now base batch acksAll} (free : c.recomputing = none)
      (appended : c.produce thread = .appended base batch acksAll) :
      LeaderDoes me c (.onLeaderAppend thread now) { c.startRecompute me now with
        produce := Function.update c.produce thread (.reclamped base batch acksAll) }
  | onReplicaFetch {replicaId fetchOffset now} (free : c.recomputing = none) :
      LeaderDoes me c (.onReplicaFetch replicaId fetchOffset now)
        ({ c with st := c.st.recordFetch replicaId fetchOffset now }.startRecompute me now)
  | sweep {now} (free : c.recomputing = none) :
      LeaderDoes me c (.sweep now) (c.startRecompute me now)
  | setHighWatermark {r} (pending : c.recomputing = some r) :
      LeaderDoes me c .setHighWatermark { c with
        log := c.log.setHighWatermark r.hwm
        st := { c.st with isr := r.isr }
        recomputing := none
        raised := false }
  | waitForHwm {thread required} (free : c.recomputing = none)
      (waits : c.requiredOffset thread = some required) (reached : required < c.log.hwm) :
      LeaderDoes me c (.waitForHwm thread) { c with
        produce := Function.update c.produce thread .idle }
  | waitTimedOut {thread required} (waits : c.requiredOffset thread = some required) :
      LeaderDoes me c (.waitTimedOut thread) { c with
        produce := Function.update c.produce thread .idle }
  | answer {thread} (free : c.requiredOffset thread = none) :
      LeaderDoes me c (.answer thread) { c with
        produce := Function.update c.produce thread .idle }
  | read {startOffset maxBytes} : LeaderDoes me c (.read startOffset maxBytes) c

theorem leaderStep_does {e : LeaderEvent} (h : leaderStep me c e = some c') :
    LeaderDoes me c e c' := by
  cases e with
  | append thread ts records acksAll =>
      simp only [leaderStep] at h
      split at h
      · next hidle =>
          obtain rfl := Option.some.inj h
          rw [ReplicaLog.append_base]
          exact .append hidle
      · cases h
  | onLeaderAppend thread now =>
      simp only [leaderStep] at h
      split at h
      · next hfree happended =>
          obtain rfl := Option.some.inj h
          exact .onLeaderAppend hfree happended
      · cases h
  | onReplicaFetch replicaId fetchOffset now =>
      simp only [leaderStep] at h
      split at h
      · next hfree =>
          obtain rfl := Option.some.inj h
          exact .onReplicaFetch hfree
      · cases h
  | sweep now =>
      simp only [leaderStep] at h
      split at h
      · next hfree =>
          obtain rfl := Option.some.inj h
          exact .sweep hfree
      · cases h
  | setHighWatermark =>
      simp only [leaderStep] at h
      split at h
      · next hpending =>
          obtain rfl := Option.some.inj h
          exact .setHighWatermark hpending
      · cases h
  | waitForHwm thread =>
      simp only [leaderStep] at h
      split at h
      · next hfree hwaits =>
          split at h
          · next hreached =>
              obtain rfl := Option.some.inj h
              exact .waitForHwm hfree hwaits hreached
          · cases h
      · cases h
  | waitTimedOut thread =>
      simp only [leaderStep] at h
      split at h
      · next hwaits =>
          obtain rfl := Option.some.inj h
          exact .waitTimedOut hwaits
      · cases h
  | answer thread =>
      simp only [leaderStep] at h
      split at h
      · next hfree =>
          obtain rfl := Option.some.inj h
          exact .answer hfree
      · cases h
  | read startOffset maxBytes =>
      obtain rfl := Option.some.inj h
      exact .read

/-- The latest recompute bounds the progress of its set from below, and a settled high
watermark is its own. -/
structure WatermarkInv (me : BrokerId) (c : LedPartition) : Prop where
  progress : ∀ r, c.latest = some r → ∀ id ∈ r.isr, id ≠ me →
    ∃ p, c.st.followerProgress id = some p ∧ r.hwm ≤ p
  pending : ∀ r, c.recomputing = some r → c.latest = some r
  settled : Settled c → ∀ r, c.latest = some r → c.log.hwm = r.hwm

theorem watermarkInv_boot (log : ReplicaLog) (st : PartitionState) :
    WatermarkInv me (LedPartition.boot log st) := by
  refine ⟨?_, ?_, ?_⟩ <;> simp [LedPartition.boot]

/-- A new recompute restores the bound whatever was recorded before it. -/
theorem watermarkInv_startRecompute (c : LedPartition) (now : UInt64) :
    WatermarkInv me (c.startRecompute me now) where
  progress r hr id hid hself := by
    obtain rfl := Option.some.inj hr
    exact PartitionState.recompute_progress hid hself
  pending r hr := hr
  settled h := nomatch h.2

theorem WatermarkInv.produce (inv : WatermarkInv me c) (produce : Nat → ProduceThread) :
    WatermarkInv me { c with produce := produce } :=
  ⟨inv.progress, inv.pending, inv.settled⟩

theorem WatermarkInv.step {e : LeaderEvent} (inv : WatermarkInv me c)
    (h : leaderStep me c e = some c') : WatermarkInv me c' := by
  cases leaderStep_does h with
  | append _ =>
      refine ⟨inv.progress, inv.pending, fun hsettled r hr => ?_⟩
      -- only an empty batch leaves the high watermark settled
      obtain ⟨hraised, hidle⟩ := hsettled
      simp only [Bool.or_eq_false_iff, Bool.not_eq_false', List.isEmpty_iff] at hraised
      obtain ⟨hraised, rfl⟩ := hraised
      exact inv.settled ⟨hraised, hidle⟩ r hr
  | onLeaderAppend _ _ => exact (watermarkInv_startRecompute c _).produce _
  | onReplicaFetch _ => exact watermarkInv_startRecompute _ _
  | sweep _ => exact watermarkInv_startRecompute c _
  | setHighWatermark hpending =>
      have hlatest := inv.pending _ hpending
      refine ⟨inv.progress, fun r' hr' => (nomatch hr'), fun _ r' hr' => ?_⟩
      obtain rfl := Option.some.inj (hlatest.symm.trans hr')
      rfl
  | waitForHwm _ _ _ => exact inv.produce _
  | waitTimedOut _ => exact inv.produce _
  | answer _ => exact inv.produce _
  | read => exact inv

/-- Below a settled high watermark everything is replicated. -/
theorem WatermarkInv.replicated (inv : WatermarkInv me c)
    (h : Settled c ∨ Alone me c) {offset : Nat} (hoffset : offset < c.log.hwm) :
    Replicated me c offset := by
  intro r hr id hid hself
  rcases h with hsettled | halone
  · obtain ⟨p, hp, hle⟩ := inv.progress r hr id hid hself
    refine ⟨p, hp, ?_⟩
    calc offset < c.log.hwm := hoffset
      _ = r.hwm := inv.settled hsettled r hr
      _ ≤ p := hle
  · exact absurd (halone r hr id hid) hself

/-- In a run whose reads and successful waits meet a settled high watermark, everything
a read returns and every offset a wait acknowledges is replicated. -/
theorem high_watermark_replicated {log : ReplicaLog} {st : PartitionState}
    {visits : List (LedPartition × LeaderEvent)}
    (run : LeaderRun me (LedPartition.boot log st) visits c)
    (settled : Guarded (ReadsSettled me) visits) :
    Guarded (ExposesReplicated me) visits := by
  intro v hv
  obtain ⟨before, after, u, -, hrun, hstep⟩ := run.visited hv
  have inv : WatermarkInv me v.1 := hrun.always (watermarkInv_boot log st)
    fun _ _ _ hinv h => hinv.step h
  have hguard := settled v hv
  rcases v with ⟨t, e⟩
  cases e with
  | read startOffset maxBytes =>
      intro rec hrec
      obtain ⟨-, -, hclamp⟩ := ReplicaLog.mem_readClamped hrec
      exact inv.replicated hguard hclamp
  | waitForHwm thread =>
      intro required hrequired
      cases leaderStep_does hstep with
      | waitForHwm _ hwaits hreached =>
          obtain rfl := Option.some.inj (hwaits.symm.trans hrequired)
          exact inv.replicated hguard hreached
  | _ => trivial

/-- Leader 1 with follower 2 in sync and nothing in the log. -/
def followerInSync : List LeaderEvent := [.onReplicaFetch 2 0 0, .setHighWatermark]

def oneRecord : List ProducerRecord := [⟨[], [1]⟩]

/-- The follower fetches beyond the record before the producer is acknowledged. -/
def acknowledged : List LeaderEvent :=
  followerInSync ++
  [.append 0 0 oneRecord true, .onLeaderAppend 0 0, .setHighWatermark,
    .onReplicaFetch 2 1 0, .setHighWatermark, .waitForHwm 0, .read 0 100]

def leaderOfTwo : LedPartition := .boot {} { replicas := [1, 2], isr := [1, 2] }

theorem high_watermark_replicated_two :
    ∃ visits c, LeaderRun 1 leaderOfTwo visits c ∧ visits.length = 9 ∧
      c.log.read 0 100 = [⟨0, 0, [], [1]⟩] ∧ Guarded (ExposesReplicated 1) visits := by
  obtain ⟨c, hc⟩ := Option.isSome_iff_exists.mp
    (show (execute (leaderStep 1) leaderOfTwo acknowledged).isSome by decide)
  have seen : (execute (leaderStep 1) leaderOfTwo acknowledged).map
      (fun c => c.log.read 0 100) = some [⟨0, 0, [], [1]⟩] := by decide
  rw [hc] at seen
  exact ⟨_, c, run_of_execute hc, by decide, Option.some.inj seen,
    high_watermark_replicated (run_of_execute hc) (by decide)⟩

/-- A second producer appends while the first one waits. -/
def secondAppend : List LeaderEvent :=
  followerInSync ++
  [.append 0 0 oneRecord true, .onLeaderAppend 0 0, .setHighWatermark,
    .append 1 0 oneRecord true]

/-- Between an append and its recompute, reads return records that the follower in sync
has not fetched, and waits for such records succeed. -/
theorem high_watermark_not_replicated :
    (¬ ∀ (me : BrokerId) (log : ReplicaLog) (st : PartitionState)
      (visits : List (LedPartition × LeaderEvent)) (c : LedPartition),
      LeaderRun me (LedPartition.boot log st) visits c →
      ∀ startOffset maxBytes, ExposesReplicated me c (.read startOffset maxBytes)) ∧
    ¬ ∀ (me : BrokerId) (log : ReplicaLog) (st : PartitionState)
      (visits : List (LedPartition × LeaderEvent)) (c : LedPartition),
      LeaderRun me (LedPartition.boot log st) visits c →
      ∀ thread, (leaderStep me c (.waitForHwm thread)).isSome →
        ExposesReplicated me c (.waitForHwm thread) := by
  obtain ⟨c, hc⟩ := Option.isSome_iff_exists.mp
    (show (execute (leaderStep 1) leaderOfTwo secondAppend).isSome by decide)
  have seen : (execute (leaderStep 1) leaderOfTwo secondAppend).map (fun c =>
      (c.log.read 0 100, c.latest, c.st.followerProgress 2, c.requiredOffset 0,
        (leaderStep 1 c (.waitForHwm 0)).isSome)) =
      some ([⟨0, 0, [], [1]⟩, ⟨1, 0, [], [1]⟩], some ⟨[1, 2], 0⟩, some 0, some 0, true) := by
    decide
  rw [hc] at seen
  simp only [Option.map_some, Option.some.injEq, Prod.mk.injEq] at seen
  obtain ⟨hread, hlatest, hprogress, hrequired, hwait⟩ := seen
  have behind : ¬ Replicated 1 c 0 := by
    intro hrep
    obtain ⟨p, hp, hlt⟩ := hrep _ hlatest 2 (by decide) (by decide)
    obtain rfl := Option.some.inj (hprogress.symm.trans hp)
    exact Nat.lt_irrefl 0 hlt
  refine ⟨fun claim => behind ?_, fun claim => behind ?_⟩
  · exact claim 1 _ _ _ c (run_of_execute hc) 0 100 ⟨0, 0, [], [1]⟩ (by simp [hread])
  · exact claim 1 _ _ _ c (run_of_execute hc) 0 hwait 0 hrequired

end MiniKafka.Replication
