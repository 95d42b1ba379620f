import MiniKafka.Cluster.Assignments
import MiniKafka.Replication.HighWatermark

/-!
# One broker's part in a replicated partition

A broker has its copy of the log, its cached assignment, its leader-side threads, the
handlers of FETCH_REPLICA and its fetcher threads. A step is one critical section of
the broker; what it hands to the network or to a producer is returned with the new
state.

Fetcher threads are started and stopped at will here: what the replacement of a
fetcher does is the subject of the module on fetchers. A crash includes the restart.
-/

namespace MiniKafka.Broker

open Cluster Replication Storage

def kMaxFetchBytes : UInt32 := (1 : UInt32) <<< 20

/-- Records a leader read for a follower, and the offset they were asked from. -/
structure Batch where
  fetchOffset : Nat
  records : List LogEntry
  deriving DecidableEq

/-- Where a fetcher thread stands in `run_loop`. -/
inductive PullPhase
  | top
  | requested (fetchOffset : Nat)
  | received (batch : Batch)
  deriving DecidableEq

/-- The batch the thread is about to append. -/
def PullPhase.batch : PullPhase → Option Batch
  | received batch => some batch
  | _ => none

/-- Where a handler of FETCH_REPLICA stands: the leader check passed, or the log was read. -/
inductive FetchHandler
  | checked (replicaId : BrokerId) (fetchOffset : Nat)
  | read (replicaId : BrokerId) (batch : Batch)
  deriving DecidableEq

structure ReplicaNode where
  led : LedPartition := .boot {} {}
  /-- `assignment_for` of this broker. -/
  assignment : Option PartitionAssignment := none
  /-- The partition is in `leadingPartitions_`. -/
  leading : Bool := false
  /-- `IsrManager` has an entry for the partition. -/
  tracked : Bool := false
  /-- The produce threads that passed the leader check. -/
  admitted : List Nat := []
  handlers : List FetchHandler := []
  /-- The leader each fetcher thread pulls from, and how far it is. -/
  fetchers : Nat → Option (BrokerId × PullPhase) := fun _ => none

inductive NodeEvent
  /-- The leader check of `handle_produce`. -/
  | checkProduce (thread : Nat)
  /-- A step of the produce, consumer and sweep threads. -/
  | lead (e : LeaderEvent)
  | startFetcher (i : Nat)
  | stopFetcher (i : Nat)
  | requestFetch (i : Nat)
  | receiveFetch (i : Nat) (sender : BrokerId) (batch : Batch)
  /-- An error code or an exception of the socket. -/
  | receiveNothing (i : Nat)
  | appendReplicated (i : Nat)
  /-- The leader check of `handle_replicate`. -/
  | checkFetch (replicaId : BrokerId) (fetchOffset : Nat)
  | readUpToLeo (replicaId : BrokerId) (fetchOffset : Nat)
  /-- `on_replica_fetch`, after which the response is sent. -/
  | onReplicaFetch (replicaId : BrokerId) (batch : Batch) (now : UInt64)
  | reconcile
  | applyLeaderAndIsr (pa : PartitionAssignment)
  | crash
  /-- The broker dies while it appends a fetched batch, of which `kept` records stay. -/
  | crashInReplicate (i kept : Nat)

/-- The broker whose successful answer the event receives. -/
def NodeEvent.answeredBy : NodeEvent → Option BrokerId
  | receiveFetch _ sender _ => some sender
  | _ => none

/-- What a step sends, and what it acknowledges to a producer. -/
structure Effects where
  /-- The leader asked and the offset asked from. -/
  requests : List (BrokerId × Nat) := []
  /-- The follower answered and the records. -/
  responses : List (BrokerId × Batch) := []
  /-- The in-sync sets reported to the controller. -/
  reports : List (List BrokerId) := []
  /-- The leaders that answered a fetch with success. -/
  answeredBy : List BrokerId := []
  /-- The offset and records of the batches acknowledged with acks=all. -/
  acked : List (Nat × List LogEntry) := []

namespace ReplicaNode

variable (n : ReplicaNode)

def log : ReplicaLog := n.led.log

def leaderId : Option BrokerId := n.assignment.map PartitionAssignment.leaderId

def setLog (log : ReplicaLog) : ReplicaNode := { n with led := { n.led with log := log } }

def setFetcher (i : Nat) (f : Option (BrokerId × PullPhase)) : ReplicaNode :=
  { n with fetchers := Function.update n.fetchers i f }

/-- The batch fetcher thread `i` is about to append. -/
def received (i : Nat) : Option Batch := (n.fetchers i).bind fun f => f.2.batch

/-- The fetched batch an event writes, or part of it. -/
def fetched : NodeEvent → Option Batch
  | .appendReplicated i | .crashInReplicate i _ => n.received i
  | _ => none

/-- The records an event writes at the end of the log. -/
def writes : NodeEvent → List LogEntry
  | .lead (.append _ ts records _) => stamp ts n.log.nextOffset records
  | .appendReplicated i => ((n.received i).map Batch.records).getD []
  | .crashInReplicate i kept =>
      ((n.received i).map fun batch => batch.records.take kept).getD []
  | _ => []

def readBatch (fetchOffset : Nat) : Batch :=
  ⟨fetchOffset, n.log.readUpToLeo fetchOffset kMaxFetchBytes⟩

/-- The leader's side of `reconcile_replication`. A broker that did not lead before
raises its high watermark to its log end. -/
def reconcileLeader (replicas : List BrokerId) : ReplicaNode :=
  let log := if n.leading then n.log else n.log.setHighWatermark n.log.logEndOffset
  { n with
    led := { n.led with
      log := log
      st := .setLeading (if n.tracked then some n.led.st else none) replicas
      raised := n.led.raised || !n.leading }
    leading := true
    tracked := true }

/-- The follower's side: `stop_leading` drops the entry of `IsrManager`. -/
def reconcileFollower : ReplicaNode :=
  { n with
    led := { n.led with st := {}, latest := none }
    leading := false
    tracked := false }

/-- A restarted process: the recovered log and the assignment file are all it has. -/
def restart : ReplicaNode :=
  { led := { log := n.log.setHighWatermark n.log.logEndOffset, st := {}, raised := true }
    assignment := n.assignment }

/-- A step of the leader's threads. Without an entry in `IsrManager`, `on_leader_append`
returns at once, and neither a sweep nor a wait gets anywhere. -/
def leaderThread (me : BrokerId) (e : LeaderEvent) : Option LedPartition :=
  if n.tracked then leaderStep me n.led e
  else
    match e with
    | .onLeaderAppend thread _ =>
        match n.led.produce thread with
        | .appended base batch acksAll => some { n.led with
            produce := Function.update n.led.produce thread (.reclamped base batch acksAll) }
        | _ => none
    | .onReplicaFetch _ _ _ | .sweep _ | .setHighWatermark | .waitForHwm _ => none
    | e => leaderStep me n.led e

end ReplicaNode

/-- A step of the leader's threads, with the report of a changed in-sync set and the
acknowledgement of a batch. -/
def leadStep (me : BrokerId) (n : ReplicaNode) (e : LeaderEvent) :
    Option (ReplicaNode × Effects) :=
  match n.leaderThread me e with
  | none => none
  | some led =>
      match e with
      | .append thread _ _ _ =>
          if thread ∈ n.admitted then
            some ({ n with led := led, admitted := n.admitted.erase thread }, {})
          else none
      | .setHighWatermark =>
          some ({ n with led := led },
            { reports := if led.st.isr = n.led.st.isr then [] else [led.st.isr] })
      | .waitForHwm thread =>
          match n.led.produce thread with
          | .reclamped base batch _ =>
              some ({ n with led := led }, { acked := [(base, batch)] })
          | _ => none
      -- the progress of a replica is recorded by its fetches only
      | .onReplicaFetch _ _ _ => none
      | _ => some ({ n with led := led }, {})

def nodeStep (me : BrokerId) (n : ReplicaNode) : NodeEvent → Option (ReplicaNode × Effects)
  | .checkProduce thread =>
      if n.leaderId = some me then some ({ n with admitted := thread :: n.admitted }, {})
      else none
  | .lead e => leadStep me n e
  | .startFetcher i =>
      match n.assignment with
      | some pa =>
          if pa.leaderId ≠ me ∧ me ∈ pa.replicas ∧ n.fetchers i = none then
            some (n.setFetcher i (some (pa.leaderId, .top)), {})
          else none
      | none => none
  | .stopFetcher i =>
      match n.fetchers i with
      | some (_, .top) => some (n.setFetcher i none, {})
      | _ => none
  | .requestFetch i =>
      match n.fetchers i with
      | some (leader, .top) =>
          let fetchOffset := n.log.logEndOffset
          some (n.setFetcher i (some (leader, .requested fetchOffset)),
            { requests := [(leader, fetchOffset)] })
      | _ => none
  | .receiveFetch i sender batch =>
      match n.fetchers i with
      | some (leader, .requested fetchOffset) =>
          if sender = leader ∧ batch.fetchOffset = fetchOffset then
            let phase : PullPhase := if batch.records = [] then .top else .received batch
            some (n.setFetcher i (some (leader, phase)), { answeredBy := [leader] })
          else none
      | _ => none
  | .receiveNothing i =>
      match n.fetchers i with
      | some (leader, .requested _) => some (n.setFetcher i (some (leader, .top)), {})
      | _ => none
  | .appendReplicated i =>
      match n.fetchers i with
      | some (leader, .received batch) =>
          some ((n.setLog (n.log.appendReplicated batch.records)).setFetcher i
            (some (leader, .top)), {})
      | _ => none
  | .checkFetch replicaId fetchOffset =>
      if n.leaderId = some me then
        some ({ n with handlers := .checked replicaId fetchOffset :: n.handlers }, {})
      else none
  | .readUpToLeo replicaId fetchOffset =>
      if .checked replicaId fetchOffset ∈ n.handlers then
        some ({ n with
          handlers := .read replicaId (n.readBatch fetchOffset) ::
            n.handlers.erase (.checked replicaId fetchOffset) }, {})
      else none
  | .onReplicaFetch replicaId batch now =>
      if .read replicaId batch ∈ n.handlers then
        let led :=
          if n.tracked then leaderStep me n.led (.onReplicaFetch replicaId batch.fetchOffset now)
          else some n.led
        led.map fun led =>
          ({ n with led := led, handlers := n.handlers.erase (.read replicaId batch) },
            { responses := [(replicaId, batch)] })
      else none
  | .reconcile =>
      match n.assignment, n.led.recomputing with
      | some pa, none =>
          if pa.leaderId = me then some (n.reconcileLeader pa.replicas, {})
          else if me ∈ pa.replicas then some (n.reconcileFollower, {})
          else some ({ n with leading := false }, {})
      | _, _ => none
  | .applyLeaderAndIsr pa => some ({ n with assignment := some pa }, {})
  | .crash => some (n.restart, {})
  | .crashInReplicate i kept =>
      match n.received i with
      | some batch =>
          some ((n.setLog (n.log.appendReplicated (batch.records.take kept))).restart, {})
      | none => none

/-- What a critical section of the broker does, with the checks it has passed. -/
inductive NodeDoes (me : BrokerId) (n : ReplicaNode) :
    NodeEvent → ReplicaNode → Effects → Prop
  | checkProduce {thread} (leads : n.leaderId = some me) :
      NodeDoes me n (.checkProduce thread) { n with admitted := thread :: n.admitted } {}
  | lead {e n' sent} (does : leadStep me n e = some (n', sent)) :
      NodeDoes me n (.lead e) n' sent
  | startFetcher {i pa} (cached : n.assignment = some pa)
      (follows : pa.leaderId ≠ me ∧ me ∈ pa.replicas ∧ n.fetchers i = none) :
      NodeDoes me n (.startFetcher i) (n.setFetcher i (some (pa.leaderId, .top))) {}
  | stopFetcher {i leader} (top : n.fetchers i = some (leader, .top)) :
      NodeDoes me n (.stopFetcher i) (n.setFetcher i none) {}
  | requestFetch {i leader} (top : n.fetchers i = some (leader, .top)) :
      NodeDoes me n (.requestFetch i)
        (n.setFetcher i (some (leader, .requested n.log.logEndOffset)))
        { requests := [(leader, n.log.logEndOffset)] }
  | receiveFetch {i leader batch}
      (asked : n.fetchers i = some (leader, .requested batch.fetchOffset)) :
      NodeDoes me n (.receiveFetch i leader batch)
        (n.setFetcher i
          (some (leader, if batch.records = [] then .top else .received batch)))
        { answeredBy := [leader] }
  | receiveNothing {i leader fetchOffset}
      (asked : n.fetchers i = some (leader, .requested fetchOffset)) :
      NodeDoes me n (.receiveNothing i) (n.setFetcher i (some (leader, .top))) {}
  | appendReplicated {i leader batch}
      (received : n.fetchers i = some (leader, .received batch)) :
      NodeDoes me n (.appendReplicated i)
        ((n.setLog (n.log.appendReplicated batch.records)).setFetcher i
          (some (leader, .top))) {}
  | checkFetch {replicaId fetchOffset} (leads : n.leaderId = some me) :
      NodeDoes me n (.checkFetch replicaId fetchOffset)
        { n with handlers := .checked replicaId fetchOffset :: n.handlers } {}
  | readUpToLeo {replicaId fetchOffset}
      (checked : .checked replicaId fetchOffset ∈ n.handlers) :
      NodeDoes me n (.readUpToLeo replicaId fetchOffset)
        { n with
          handlers := .read replicaId (n.readBatch fetchOffset) ::
            n.handlers.erase (.checked replicaId fetchOffset) } {}
  | onReplicaFetch {replicaId batch now led} (read : .read replicaId batch ∈ n.handlers)
      (tracked : n.tracked = true)
      (records : leaderStep me n.led (.onReplicaFetch replicaId batch.fetchOffset now)
        = some led) :
      NodeDoes me n (.onReplicaFetch replicaId batch now)
        { n with led := led, handlers := n.handlers.erase (.read replicaId batch) }
        { responses := [(replicaId, batch)] }
  | ignoreFetch {replicaId batch now} (read : .read replicaId batch ∈ n.handlers)
      (untracked : n.tracked = false) :
      NodeDoes me n (.onReplicaFetch replicaId batch now)
        { n with handlers := n.handlers.erase (.read replicaId batch) }
        { responses := [(replicaId, batch)] }
  | reconcileLeader {pa} (cached : n.assignment = some pa) (idle : n.led.recomputing = none)
      (leads : pa.leaderId = me) :
      NodeDoes me n .reconcile (n.reconcileLeader pa.replicas) {}
  | reconcileFollower {pa} (cached : n.assignment = some pa) (idle : n.led.recomputing = none)
      (follows : pa.leaderId ≠ me ∧ me ∈ pa.replicas) :
      NodeDoes me n .reconcile n.reconcileFollower {}
  | reconcileOther {pa} (cached : n.assignment = some pa) (idle : n.led.recomputing = none)
      (elsewhere : pa.leaderId ≠ me ∧ me ∉ pa.replicas) :
      NodeDoes me n .reconcile { n with leading := false } {}
  | applyLeaderAndIsr {pa} :
      NodeDoes me n (.applyLeaderAndIsr pa) { n with assignment := some pa } {}
  | crash : NodeDoes me n .crash n.restart {}
  | crashInReplicate {i kept batch} (received : n.received i = some batch) :
      NodeDoes me n (.crashInReplicate i kept)
        (n.setLog (n.log.appendReplicated (batch.records.take kept))).restart {}

theorem nodeStep_does {me : BrokerId} {n n' : ReplicaNode} {e : NodeEvent} {sent : Effects}
    (h : nodeStep me n e = some (n', sent)) : NodeDoes me n e n' sent := by
  cases e with
  | checkProduce thread =>
      simp only [nodeStep] at h
      split at h
      · next hleads =>
          obtain ⟨rfl, rfl⟩ := Prod.mk.inj (Option.some.inj h)
          exact .checkProduce hleads
      · cases h
  | lead e => exact .lead h
  | startFetcher i =>
      simp only [nodeStep] at h
      split at h
      · next pa hpa =>
          split at h
          · next hfollows =>
              obtain ⟨rfl, rfl⟩ := Prod.mk.inj (Option.some.inj h)
              exact .startFetcher hpa hfollows
          · cases h
      · cases h
  | stopFetcher i =>
      simp only [nodeStep] at h
      split at h
      · next leader htop =>
          obtain ⟨rfl, rfl⟩ := Prod.mk.inj (Option.some.inj h)
          exact .stopFetcher htop
      · cases h
  | requestFetch i =>
      simp only [nodeStep] at h
      split at h
      · next leader htop =>
          obtain ⟨rfl, rfl⟩ := Prod.mk.inj (Option.some.inj h)
          exact .requestFetch htop
      · cases h
  | receiveFetch i sender batch =>
      simp only [nodeStep] at h
      split at h
      · next leader fetchOffset hasked =>
          split at h
          · next hfrom =>
              obtain ⟨rfl, rfl⟩ := hfrom
              obtain ⟨rfl, rfl⟩ := Prod.mk.inj (Option.some.inj h)
              exact .receiveFetch hasked
          · cases h
      · cases h
  | receiveNothing i =>
      simp only [nodeStep] at h
      split at h
      · next leader fetchOffset hasked =>
          obtain ⟨rfl, rfl⟩ := Prod.mk.inj (Option.some.inj h)
          exact .receiveNothing hasked
      · cases h
  | appendReplicated i =>
      simp only [nodeStep] at h
      split at h
      · next leader batch hreceived =>
          obtain ⟨rfl, rfl⟩ := Prod.mk.inj (Option.some.inj h)
          exact .appendReplicated hreceived
      · cases h
  | checkFetch replicaId fetchOffset =>
      simp only [nodeStep] at h
      split at h
      · next hleads =>
          obtain ⟨rfl, rfl⟩ := Prod.mk.inj (Option.some.inj h)
          exact .checkFetch hleads
      · cases h
  | readUpToLeo replicaId fetchOffset =>
      simp only [nodeStep] at h
      split at h
      · next hchecked =>
          obtain ⟨rfl, rfl⟩ := Prod.mk.inj (Option.some.inj h)
          exact .readUpToLeo hchecked
      · cases h
  | onReplicaFetch replicaId batch now =>
      simp only [nodeStep] at h
      split at h
      · next hread =>
          obtain ⟨led, hled, heq⟩ := Option.map_eq_some_iff.mp h
          obtain ⟨rfl, rfl⟩ := Prod.mk.inj heq
          split at hled
          · next htracked => exact .onReplicaFetch hread htracked hled
          · next huntracked =>
              obtain rfl := Option.some.inj hled
              exact .ignoreFetch hread (Bool.eq_false_of_not_eq_true huntracked)
      · cases h
  | reconcile =>
      simp only [nodeStep] at h
      split at h
      · next pa hpa hidle =>
          split at h
          · next hleads =>
              obtain ⟨rfl, rfl⟩ := Prod.mk.inj (Option.some.inj h)
              exact .reconcileLeader hpa hidle hleads
          · next hleads =>
              split at h
              · next hfollows =>
                  obtain ⟨rfl, rfl⟩ := Prod.mk.inj (Option.some.inj h)
                  exact .reconcileFollower hpa hidle ⟨hleads, hfollows⟩
              · next helse =>
                  obtain ⟨rfl, rfl⟩ := Prod.mk.inj (Option.some.inj h)
                  exact .reconcileOther hpa hidle ⟨hleads, helse⟩
      · cases h
  | applyLeaderAndIsr pa =>
      obtain ⟨rfl, rfl⟩ := Prod.mk.inj (Option.some.inj h)
      exact .applyLeaderAndIsr
  | crash =>
      obtain ⟨rfl, rfl⟩ := Prod.mk.inj (Option.some.inj h)
      exact .crash
  | crashInReplicate i kept =>
      simp only [nodeStep] at h
      split at h
      · next batch hreceived =>
          obtain ⟨rfl, rfl⟩ := Prod.mk.inj (Option.some.inj h)
          exact .crashInReplicate hreceived
      · cases h

end MiniKafka.Broker
