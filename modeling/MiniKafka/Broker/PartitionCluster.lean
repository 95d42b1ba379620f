import MiniKafka.Broker.ReplicaNode

/-!
# One replicated partition across the brokers of a cluster

The controller is one of the brokers, and its own assignment is the one in force.
Requests, responses, reports and broadcasts stay in the network, to be handled late,
repeatedly or never. A broker that is down takes no step, and who counts as alive in
a failover pass is arbitrary. Unclean leader election is disabled.
-/

namespace MiniKafka.Broker

open Cluster Foundations Replication Storage

/-- A follower has received a successful response from a broker. -/
structure FetchAnswer where
  follower : BrokerId
  leader : BrokerId
  deriving DecidableEq

structure PartitionCluster where
  nodes : BrokerId → ReplicaNode
  /-- The assignments of the LEADER_AND_ISR calls sent so far. -/
  broadcasts : List PartitionAssignment := []
  /-- The reported sets of the IsrUpdate calls sent so far. -/
  reports : List (List BrokerId) := []
  /-- Follower, leader and fetch offset of every FETCH_REPLICA request. -/
  requests : List (BrokerId × BrokerId × Nat) := []
  /-- Leader, follower and records of every successful response. -/
  responses : List (BrokerId × BrokerId × Batch) := []
  /-- The offset and records of every batch acknowledged with acks=all. -/
  acked : List (Nat × List LogEntry) := []
  answered : List FetchAnswer := []
  /-- The brokers whose log left the history of the partition: it ended beyond the log of
  a promoted broker, or took in, while another broker led, records of a producer or a
  batch that is not clean. -/
  stranded : BrokerId → Bool := fun _ => false
  /-- The batches read from brokers that were not stranded, less those that end beyond
  the log of a broker promoted since. -/
  clean : List Batch := []

inductive ClusterEvent
  | broker (b : BrokerId) (e : NodeEvent)
  | updateIsr (isr : List BrokerId)
  | checkPartitionFailover (alive : AliveIds)

namespace PartitionCluster

variable (controller : BrokerId) (c : PartitionCluster)

def log (b : BrokerId) : ReplicaLog := (c.nodes b).log

/-- The broker the controller has as the leader. -/
def leader : Option BrokerId := (c.nodes controller).leaderId

/-- The in-sync set the controller has. -/
def isr : List BrokerId :=
  ((c.nodes controller).assignment.map PartitionAssignment.isr).getD []

/-- A partition the controller has just created: the logs are empty, and no other
broker has heard of it. -/
def boot (pa : PartitionAssignment) : PartitionCluster :=
  { nodes := fun b => if b = controller then { assignment := some pa } else {}
    broadcasts := [pa] }

/-- The controller stores a new assignment and broadcasts it. -/
def store (pa : PartitionAssignment) : PartitionCluster :=
  { c with
    nodes := Function.update c.nodes controller
      { c.nodes controller with assignment := some pa }
    broadcasts := pa :: c.broadcasts }

/-- A failover pass promotes `pa.leaderId`: logs and batches beyond its log end leave the
history of the partition. -/
def promoted (pa : PartitionAssignment) : PartitionCluster :=
  let logEnd := (c.log pa.leaderId).logEndOffset
  { c.store controller pa with
    stranded := fun b => c.stranded b || logEnd < (c.log b).logEndOffset
    clean := c.clean.filter fun batch => batch.fetchOffset + batch.records.length ≤ logEnd }

/-- The message a step of `b` handles is in the network. -/
def delivered (b : BrokerId) : NodeEvent → Bool
  | .receiveFetch _ sender batch => (sender, b, batch) ∈ c.responses
  | .checkFetch replicaId fetchOffset => (replicaId, b, fetchOffset) ∈ c.requests
  | .applyLeaderAndIsr pa => pa ∈ c.broadcasts ∧ b ≠ controller
  | _ => true

/-- While another broker leads, the step takes into the log of `b` records of a producer
or of a batch that is not clean. -/
def Strands (b : BrokerId) (e : NodeEvent) : Prop :=
  c.leader controller ≠ some b ∧ (c.nodes b).writes e ≠ [] ∧
    ∀ batch ∈ (c.nodes b).fetched e, batch ∉ c.clean

instance (b : BrokerId) (e : NodeEvent) : Decidable (c.Strands controller b e) :=
  inferInstanceAs (Decidable (_ ∧ _ ∧ _))

/-- The batch a step reads from a log that is not stranded. -/
def cleanRead (b : BrokerId) : NodeEvent → List Batch
  | .readUpToLeo _ fetchOffset =>
      if c.stranded b then [] else [(c.nodes b).readBatch fetchOffset]
  | _ => []

/-- The cluster after a step of broker `b` that leaves it as `n`. -/
def advance (b : BrokerId) (e : NodeEvent) (n : ReplicaNode) (sent : Effects) :
    PartitionCluster where
  nodes := Function.update c.nodes b n
  broadcasts := c.broadcasts
  reports := sent.reports ++ c.reports
  requests := sent.requests.map (b, ·) ++ c.requests
  responses := sent.responses.map (b, ·) ++ c.responses
  acked := sent.acked ++ c.acked
  answered := sent.answeredBy.map (⟨b, ·⟩) ++ c.answered
  stranded := Function.update c.stranded b
    (c.stranded b || decide (c.Strands controller b e))
  clean := c.cleanRead b e ++ c.clean

end PartitionCluster

def clusterStep (controller : BrokerId) (c : PartitionCluster) :
    ClusterEvent → Option PartitionCluster
  | .broker b e =>
      if c.delivered controller b e then
        (nodeStep b (c.nodes b) e).map fun (n, sent) => c.advance controller b e n sent
      else none
  | .updateIsr isr =>
      match (c.nodes controller).assignment with
      | some pa =>
          if isr ∈ c.reports then some (c.store controller { pa with isr := isr }) else none
      | none => none
  | .checkPartitionFailover alive =>
      match (c.nodes controller).assignment with
      | some pa =>
          match Assignments.promote false alive pa with
          | some pa => some (c.promoted controller pa)
          | none => some c
      | none => none

abbrev ClusterRun (controller : BrokerId) := Run (clusterStep controller)

end MiniKafka.Broker
