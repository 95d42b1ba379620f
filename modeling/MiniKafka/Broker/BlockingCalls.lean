import MiniKafka.Cluster.AssignmentInvariant

/-!
# Blocking calls between brokers

The threads of all brokers that handle FETCH_REPLICA, IsrUpdate and LEADER_AND_ISR, fetch
for a follower, send a broadcast or check for a failover, each at the place where it may
have to wait: for `followersMu_`, for the mutex of a `PeerConn`, for threads it joins, or
for the response of a peer. Every other mutex is held for a while only, by code that waits
for nothing. What `recompute` finds, what `is_leader` and `current_leader_id` answer and
which brokers count as alive are up to the events. No broker stops, so that every
connection lasts and a session thread can be told by the request it serves.
-/

namespace MiniKafka.Broker

open Cluster Foundations

/-- The number of a thread, in the order of their starts. -/
abbrev ThreadId := Nat

/-- Who calls `broadcast_leader_and_isr`. -/
inductive Origin
  | updateIsr
  | checkPartitionFailover
  deriving DecidableEq, Repr

inductive PeerRequest
  /-- FETCH_REPLICA, of this fetcher thread. -/
  | replicate (fetcher : ThreadId) (key : TopicPartition)
  | isrUpdate (req : IsrUpdateRequest)
  | leaderAndIsr (entries : List LeaderAndISREntry)
  deriving DecidableEq, Repr

/-- What a thread runs. -/
inductive ThreadBody
  /-- `FollowerFetcher::run_loop`. -/
  | fetch (key : TopicPartition) (leader : BrokerId)
  /-- The handler of a request, on its session thread. -/
  | handle (req : PeerRequest)
  /-- A thread of `broadcast_leader_and_isr`. -/
  | broadcast (origin : Origin)
  /-- The thread of `ClusterController::run_loop`. -/
  | checkPartitionFailover
  deriving DecidableEq, Repr

/-- What `all_assignments` returns. -/
abbrev AllAssignments := List (TopicPartition × PartitionAssignment)

/-- Where a thread is. -/
inductive ThreadPoint
  | start
  /-- A fetcher behind its test of `stop_`. -/
  | connected
  /-- `ClusterMembership::call`, before it has the mutex of the connection. -/
  | wantConn (peer : BrokerId) (req : PeerRequest)
  /-- The request is sent, with the mutex of a `PeerConn` or on a connection of its own. -/
  | await (conn : Option BrokerId) (handler : ThreadId)
  | join (threads : List ThreadId)
  /-- `reconcile_replication`, before it has copied the assignments. -/
  | wantAssignments
  /-- `reconcile_replication` with its copy, before it has `followersMu_`. -/
  | wantFollowers (assignments : AllAssignments)
  /-- `reconcile_replication` with the mutex and the assignments it has not gone through. -/
  | reconcile (assignments todo : AllAssignments)
  /-- The destructor of a `FollowerFetcher`, in `reconcile_replication`. -/
  | joinFetcher (fetcher : ThreadId) (assignments todo : AllAssignments)
  | done
  deriving DecidableEq, Repr

structure Thread where
  broker : BrokerId
  body : ThreadBody
  point : ThreadPoint := .start
  stop : Bool := false
  deriving DecidableEq, Repr

/-- The threads, and for each broker its assignments and its `followers_`, with the leader
that a fetcher is connected to. -/
structure CallState where
  threads : List Thread
  assignments : BrokerId → Assignments
  followers : BrokerId → Std.ExtTreeMap TopicPartition (BrokerId × ThreadId)

inductive CallEvent
  | checkStop (t : ThreadId)
  | requestFetch (t : ThreadId)
  /-- `handle_replicate`, with the in-sync set if `recompute` changed it. -/
  | replicate (t : ThreadId) (changed : Option (List BrokerId)) (isLeader : Bool)
      (currentLeaderId : Option BrokerId)
  | updateIsr (t : ThreadId) (isLeader : Bool)
  | applyLeaderAndIsr (t : ThreadId)
  | checkPartitionFailover (t : ThreadId) (uncleanLeaderElectionEnable : Bool) (alive : AliveIds)
  | lockConn (t : ThreadId)
  | allAssignments (t : ThreadId)
  | lockFollowers (t : ThreadId)
  /-- The next assignment in `reconcile_replication`. -/
  | reconcile (t : ThreadId)
  /-- A fetcher of a partition that is no longer relevant, in the second loop. -/
  | eraseFollower (t : ThreadId) (key : TopicPartition)
  | unlockFollowers (t : ThreadId)
  /-- The threads or the response that a thread waits for are there. -/
  | resume (t : ThreadId)

namespace Thread

variable (th : Thread)

def holdsConn (peer : BrokerId) : Bool :=
  match th.point with
  | .await conn _ => conn = some peer
  | _ => false

def holdsFollowers : Bool :=
  match th.point with
  | .reconcile _ _ | .joinFetcher _ _ _ => true
  | _ => false

/-- Where a thread goes when a turn of its loop or its only work ends. -/
def rest : ThreadPoint :=
  match th.body with
  | .fetch _ _ | .checkPartitionFailover => .start
  | .handle _ | .broadcast _ => .done

end Thread

/-- Thread `t` moves to a point, a fetcher may be told to stop, and threads may start. -/
def advance (threads : List Thread) (t : ThreadId) (point : ThreadPoint)
    (stopped : Option ThreadId) (new : List Thread) : List Thread :=
  (threads.mapIdx fun u th =>
    { th with
      point := if u = t then point else th.point
      stop := th.stop || decide (stopped = some u) }) ++ new

/-- What `handle_replicate` does about a change of the in-sync set. -/
inductive Report
  | broadcast (d : Decision)
  | call (controllerId : BrokerId) (req : IsrUpdateRequest)

/-- What an iteration of `reconcile_replication` does with the fetcher of a partition: the
thread it starts, what is then in `followers_`, and the fetcher it destroys. -/
structure FollowerChange where
  started : Option Thread := none
  follower : Option (BrokerId × ThreadId)
  destroyed : Option ThreadId := none

namespace CallState

variable (m : Membership) (s : CallState)

def boot (m : Membership) (assignments : BrokerId → Assignments) : CallState where
  threads := m.allIds.map fun b => { broker := b, body := .checkPartitionFailover }
  assignments := assignments
  followers := fun _ => ∅

def move (t : ThreadId) (point : ThreadPoint) : CallState :=
  { s with threads := advance s.threads t point none [] }

def isDone (t : ThreadId) : Bool :=
  match s.threads[t]? with
  | some th => th.point = .done
  | none => false

/-- The callback of `on_isr_change`. A broker has no connection to itself. -/
def onIsrChange (b : BrokerId) (req : IsrUpdateRequest) (isLeader : Bool)
    (currentLeaderId : Option BrokerId) : Option Report :=
  if isLeader then ((s.assignments b).updateIsr true req).map .broadcast
  else
    match currentLeaderId with
    | some controllerId =>
        if controllerId ∈ m.peerIds b then some (.call controllerId req) else none
    | none => none

/-- `handle_replicate` reports only for a partition that its broker leads. -/
def report (b : BrokerId) (key : TopicPartition) (changed : Option (List BrokerId))
    (isLeader : Bool) (currentLeaderId : Option BrokerId) : Option Report :=
  match (s.assignments b)[key]?, changed with
  | some pa, some isr =>
      if pa.leaderId = b then s.onIsrChange m b ⟨key.1, key.2, isr⟩ isLeader currentLeaderId
      else none
  | _, _ => none

/-- `broadcast_leader_and_isr`: a thread for each peer, all of them joined. -/
def broadcastLeaderAndIsr (t : ThreadId) (b : BrokerId) (origin : Origin) (d : Decision) :
    CallState :=
  let new := (m.peerIds b).map fun peer =>
    { broker := b
      body := .broadcast origin
      point := .wantConn peer (.leaderAndIsr d.wireEntries) }
  let ids := (List.range new.length).map (s.threads.length + ·)
  { s with
    threads := advance s.threads t (.join ids) none new
    assignments := Function.update s.assignments b d.assignments }

/-- An iteration of `reconcile_replication`; the thread that starts gets the next number. -/
def followerChange (b : BrokerId) (key : TopicPartition) (pa : PartitionAssignment) :
    FollowerChange :=
  let old := (s.followers b)[key]?
  if pa.leaderId = b then { follower := none, destroyed := old.map (·.2) }
  else if b ∈ pa.replicas ∧ pa.leaderId ∈ m.allIds ∧ ¬ old.any (·.1 = pa.leaderId) then
    { started := some { broker := b, body := .fetch key pa.leaderId }
      follower := some (pa.leaderId, s.threads.length)
      destroyed := old.map (·.2) }
  else { follower := old }

/-- What `followers_` holds for a partition is replaced. A destructor is joined before the
loop goes on. -/
def changeFollower (t : ThreadId) (b : BrokerId) (key : TopicPartition) (c : FollowerChange)
    (assignments todo : AllAssignments) : CallState :=
  let point : ThreadPoint :=
    match c.destroyed with
    | some fetcher => .joinFetcher fetcher assignments todo
    | none => .reconcile assignments todo
  { s with
    threads := advance s.threads t point c.destroyed c.started.toList
    followers := Function.update s.followers b ((s.followers b).alter key fun _ => c.follower) }

end CallState

/-- The partitions of which a broker is the leader or a replica. -/
def stillRelevant (b : BrokerId) (assignments : AllAssignments) (key : TopicPartition) : Bool :=
  assignments.any fun e => e.1 = key ∧ (e.2.leaderId = b ∨ b ∈ e.2.replicas)

def callStep (m : Membership) (s : CallState) : CallEvent → Option CallState
  | .checkStop t =>
      match s.threads[t]? with
      | some ⟨_, .fetch _ _, .start, stop⟩ => some (s.move t (if stop then .done else .connected))
      | _ => none
  | .requestFetch t =>
      match s.threads[t]? with
      | some ⟨_, .fetch key leader, .connected, _⟩ =>
          let handler : Thread := { broker := leader, body := .handle (.replicate t key) }
          some { s with
            threads := advance s.threads t (.await none s.threads.length) none [handler] }
      | _ => none
  | .replicate t changed isLeader currentLeaderId =>
      match s.threads[t]? with
      | some ⟨b, .handle (.replicate _ key), .start, _⟩ =>
          match s.report m b key changed isLeader currentLeaderId with
          | some (.broadcast d) => some (s.broadcastLeaderAndIsr m t b .updateIsr d)
          | some (.call controllerId req) =>
              some (s.move t (.wantConn controllerId (.isrUpdate req)))
          | none => some (s.move t .done)
      | _ => none
  | .updateIsr t isLeader =>
      match s.threads[t]? with
      | some ⟨b, .handle (.isrUpdate req), .start, _⟩ =>
          match (s.assignments b).updateIsr isLeader req with
          | some d => some (s.broadcastLeaderAndIsr m t b .updateIsr d)
          | none => some (s.move t .done)
      | _ => none
  | .applyLeaderAndIsr t =>
      match s.threads[t]? with
      | some ⟨b, .handle (.leaderAndIsr entries), .start, _⟩ =>
          some { s.move t .wantAssignments with
            assignments := Function.update s.assignments b
              ((s.assignments b).applyLeaderAndIsr entries) }
      | _ => none
  | .checkPartitionFailover t uncleanLeaderElectionEnable alive =>
      match s.threads[t]? with
      | some ⟨b, .checkPartitionFailover, .start, _⟩ =>
          let d := (s.assignments b).checkPartitionFailover uncleanLeaderElectionEnable alive
          if d.wireEntries = [] then some s
          else some (s.broadcastLeaderAndIsr m t b .checkPartitionFailover d)
      | _ => none
  | .lockConn t =>
      match s.threads[t]? with
      | some ⟨b, _, .wantConn peer req, _⟩ =>
          if s.threads.any fun u => u.broker = b ∧ u.holdsConn peer then none
          else
            let handler : Thread := { broker := peer, body := .handle req }
            some { s with
              threads := advance s.threads t (.await (some peer) s.threads.length) none
                [handler] }
      | _ => none
  | .allAssignments t =>
      match s.threads[t]? with
      | some ⟨b, _, .wantAssignments, _⟩ =>
          some (s.move t (.wantFollowers (s.assignments b).toList))
      | _ => none
  | .lockFollowers t =>
      match s.threads[t]? with
      | some ⟨b, _, .wantFollowers assignments, _⟩ =>
          if s.threads.any fun u => u.broker = b ∧ u.holdsFollowers then none
          else some (s.move t (.reconcile assignments assignments))
      | _ => none
  | .reconcile t =>
      match s.threads[t]? with
      | some ⟨b, _, .reconcile assignments ((key, pa) :: todo), _⟩ =>
          some (s.changeFollower t b key (s.followerChange m b key pa) assignments todo)
      | _ => none
  | .eraseFollower t key =>
      match s.threads[t]? with
      | some ⟨b, _, .reconcile assignments [], _⟩ =>
          if stillRelevant b assignments key then none
          else
            (s.followers b)[key]?.map fun follower =>
              s.changeFollower t b key { follower := none, destroyed := some follower.2 }
                assignments []
      | _ => none
  | .unlockFollowers t =>
      match s.threads[t]? with
      | some th =>
          match th.point with
          | .reconcile assignments [] =>
              if (s.followers th.broker).keys.all (stillRelevant th.broker assignments) then
                some (s.move t th.rest)
              else none
          | _ => none
      | none => none
  | .resume t =>
      match s.threads[t]? with
      | some th =>
          match th.point with
          | .await _ handler => if s.isDone handler then some (s.move t th.rest) else none
          | .join threads =>
              if threads.all s.isDone then
                match th.body with
                | .checkPartitionFailover => some (s.move t .wantAssignments)
                | _ => some (s.move t th.rest)
              else none
          | .joinFetcher fetcher assignments todo =>
              if s.isDone fetcher then some (s.move t (.reconcile assignments todo)) else none
          | _ => none
      | none => none

/-- Thread `t` cannot go on before thread `u` does. -/
def CallState.waitsFor (s : CallState) (t u : ThreadId) : Bool :=
  s.threads[t]?.any fun th =>
    match th.point with
    | .wantConn peer _ => s.threads[u]?.any fun uh => uh.broker = th.broker ∧ uh.holdsConn peer
    | .await _ handler => u = handler
    | .join threads => u ∈ threads
    | .wantFollowers _ => s.threads[u]?.any fun uh => uh.broker = th.broker ∧ uh.holdsFollowers
    | .joinFetcher fetcher _ _ => u = fetcher
    | _ => false

def CallState.WaitsFor (s : CallState) (t u : ThreadId) : Prop := s.waitsFor t u = true

instance (s : CallState) (t u : ThreadId) : Decidable (s.WaitsFor t u) :=
  inferInstanceAs (Decidable (_ = true))

end MiniKafka.Broker
