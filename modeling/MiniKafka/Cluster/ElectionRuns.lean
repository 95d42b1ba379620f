import MiniKafka.Cluster.Membership
import MiniKafka.Foundations.Run
import Mathlib.Logic.Function.Basic

/-!
# Elections and heartbeats of a cluster

One step is one critical section of one broker, or the death and restart of a
broker. Requests and responses stay in the network once they were sent and may
be handled at any later time, any number of times, or never: this covers delay,
loss and the second attempt of `ClusterMembership::call`. A call that returns
nothing ends its thread without a section.
-/

namespace MiniKafka.Cluster

open Foundations

/-- Where the background thread of a broker stands in `run_loop`. The threads of
an election or of a broadcast that have not returned are the pending peers. -/
inductive LoopPhase
  | top
  /-- The role was read as leader, in term `checked`; the term to send is not read yet. -/
  | leaderChecked (checked : UInt32)
  | heartbeating (term : UInt32) (pending : List BrokerId)
  | electing (term votes : UInt32) (pending : List BrokerId)
  deriving DecidableEq

structure Node where
  raft : RaftState
  raftState : Option RaftFile
  loop : LoopPhase

/-- What a section leaves behind: its state in memory and its last file on disk. -/
def Node.commit {α : Type} (n : Node) (sect : Section α) : Node :=
  { n with
    raft := sect.state
    raftState := sect.written.getLast?.or n.raftState }

/-- A restarted process: the state of the constructor, the loop at its top. -/
def Node.restart (file : Option RaftFile) : Node := ⟨RaftState.loadState file, file, .top⟩

structure ElectionCluster where
  nodes : BrokerId → Node
  voteRequests : List (BrokerId × RequestVoteRequest) := []
  voteReplies : List (BrokerId × BrokerId × RequestVoteResponse) := []
  /-- Sender, receiver and content of every heartbeat sent so far. -/
  heartbeats : List (BrokerId × BrokerId × ControllerHeartbeatRequest) := []
  heartbeatReplies : List (BrokerId × BrokerId × ControllerHeartbeatResponse) := []
  /-- Every vote cast so far: who voted, in which term, for whom. -/
  votes : List (BrokerId × UInt32 × BrokerId) := []
  /-- Every execution of `become_leader` so far: the broker and its term. -/
  elected : List (BrokerId × UInt32) := []

namespace ElectionCluster

def setNode (c : ElectionCluster) (b : BrokerId) (n : Node) : ElectionCluster :=
  { c with nodes := Function.update c.nodes b n }

def term (c : ElectionCluster) (b : BrokerId) : UInt32 := (c.nodes b).raft.currentTerm

/-- Brokers that start with some `raft_state` files, and nothing sent yet. -/
def boot (files : BrokerId → Option RaftFile) : ElectionCluster :=
  { nodes := fun b => Node.restart (files b) }

end ElectionCluster

inductive ElectionEvent
  /-- `run_loop` reads the role as leader. -/
  | checkRole (b : BrokerId)
  /-- `broadcast_heartbeats` reads `currentTerm_` in a section of its own. -/
  | readTerm (b : BrokerId)
  | sendHeartbeat (b peer : BrokerId)
  | heartbeatAnswered (b peer : BrokerId) (resp : ControllerHeartbeatResponse)
  | heartbeatUnanswered (b peer : BrokerId)
  | joinHeartbeats (b : BrokerId)
  | startElection (b : BrokerId)
  | sendVoteRequest (b peer : BrokerId)
  | countVote (b peer : BrokerId) (resp : RequestVoteResponse)
  | voteUnanswered (b peer : BrokerId)
  | finishElection (b : BrokerId)
  | handleRequestVote (b : BrokerId) (req : RequestVoteRequest)
  | handleControllerHeartbeat (b sender : BrokerId) (req : ControllerHeartbeatRequest)
  | restart (b : BrokerId)
  /-- `b` dies in `handle_request_vote`, after the file of `step_down` and before
  the file of the vote, and restarts. -/
  | restartInVote (b : BrokerId) (req : RequestVoteRequest)
  deriving DecidableEq

/-- The broker that takes the step. -/
def ElectionEvent.broker : ElectionEvent → BrokerId
  | checkRole b | readTerm b | sendHeartbeat b _ | heartbeatAnswered b _ _
  | heartbeatUnanswered b _ | joinHeartbeats b | startElection b | sendVoteRequest b _
  | countVote b _ _ | voteUnanswered b _ | finishElection b | handleRequestVote b _
  | handleControllerHeartbeat b _ _ | restart b | restartInVote b _ => b

open LoopPhase in
/-- The step of a broker of the table; `none` where the event is not enabled. -/
def sectionStep (m : Membership) (c : ElectionCluster) : ElectionEvent → Option ElectionCluster
  | .checkRole b =>
      let n := c.nodes b
      if n.loop = top ∧ n.raft.role = .leader then
        some (c.setNode b { n with loop := leaderChecked n.raft.currentTerm })
      else none
  | .readTerm b =>
      let n := c.nodes b
      match n.loop with
      | leaderChecked _ =>
          some (c.setNode b { n with
            loop := heartbeating n.raft.currentTerm (m.peerIds b) })
      | _ => none
  | .sendHeartbeat b peer =>
      match (c.nodes b).loop with
      | heartbeating term pending =>
          if peer ∈ pending then
            some { c with heartbeats := (b, peer, ⟨term, b⟩) :: c.heartbeats }
          else none
      | _ => none
  | .heartbeatAnswered b peer resp =>
      let n := c.nodes b
      match n.loop with
      | heartbeating term pending =>
          if peer ∈ pending ∧ (peer, b, resp) ∈ c.heartbeatReplies then
            some (c.setNode b { n.commit (n.raft.heartbeatAnswered resp) with
              loop := heartbeating term (pending.erase peer) })
          else none
      | _ => none
  | .heartbeatUnanswered b peer =>
      let n := c.nodes b
      match n.loop with
      | heartbeating term pending =>
          some (c.setNode b { n with loop := heartbeating term (pending.erase peer) })
      | _ => none
  | .joinHeartbeats b =>
      let n := c.nodes b
      match n.loop with
      | heartbeating _ [] => some (c.setNode b { n with loop := top })
      | _ => none
  | .startElection b =>
      let n := c.nodes b
      if n.loop = top ∧ n.raft.role ≠ .leader then
        let sect := n.raft.startElection b
        some { c.setNode b { n.commit sect with
            loop := electing sect.state.currentTerm 1 (m.peerIds b) } with
          votes := (b, sect.state.currentTerm, b) :: c.votes }
      else none
  | .sendVoteRequest b peer =>
      match (c.nodes b).loop with
      | electing term _ pending =>
          if peer ∈ pending then
            some { c with voteRequests := (peer, ⟨term, b⟩) :: c.voteRequests }
          else none
      | _ => none
  | .countVote b peer resp =>
      let n := c.nodes b
      match n.loop with
      | electing term votes pending =>
          if peer ∈ pending ∧ (peer, b, resp) ∈ c.voteReplies then
            let sect := n.raft.countVote term resp
            let votes := if sect.reply then votes + 1 else votes
            some (c.setNode b { n.commit sect with
              loop := electing term votes (pending.erase peer) })
          else none
      | _ => none
  | .voteUnanswered b peer =>
      let n := c.nodes b
      match n.loop with
      | electing term votes pending =>
          some (c.setNode b { n with loop := electing term votes (pending.erase peer) })
      | _ => none
  | .finishElection b =>
      let n := c.nodes b
      match n.loop with
      | electing term votes [] =>
          let sect := n.raft.finishElection b m.brokerCount term votes
          let c' := c.setNode b { n.commit sect with loop := top }
          some (if sect.reply then
            { c' with elected := (b, sect.state.currentTerm) :: c.elected } else c')
      | _ => none
  | .handleRequestVote b req =>
      if (b, req) ∈ c.voteRequests then
        let n := c.nodes b
        let sect := n.raft.handleRequestVote req
        let c' := { c.setNode b (n.commit sect) with
          voteReplies := (b, req.candidateId, sect.reply) :: c.voteReplies }
        some (if sect.reply.voteGranted then
          { c' with votes := (b, sect.state.currentTerm, req.candidateId) :: c.votes }
          else c')
      else none
  | .handleControllerHeartbeat b sender req =>
      if (sender, b, req) ∈ c.heartbeats then
        let n := c.nodes b
        let sect := n.raft.handleControllerHeartbeat req
        some { c.setNode b (n.commit sect) with
          heartbeatReplies := (b, sender, sect.reply) :: c.heartbeatReplies }
      else none
  | .restart b => some (c.setNode b (Node.restart (c.nodes b).raftState))
  | .restartInVote b req =>
      let n := c.nodes b
      if (b, req) ∈ c.voteRequests ∧ req.term > n.raft.currentTerm then
        some (c.setNode b (Node.restart (n.commit (n.raft.stepDown req.term)).raftState))
      else none

/-- Only the brokers of the peers table take steps. -/
def electionStep (m : Membership) (c : ElectionCluster) (e : ElectionEvent) :
    Option ElectionCluster :=
  if e.broker ∈ m.allIds then sectionStep m c e else none

/-- The runs of a cluster in which every broker has the same peers table. -/
abbrev ElectionRun (m : Membership) := Run (electionStep m)

variable {m : Membership} {c c' : ElectionCluster} {e : ElectionEvent}

/-- Everything a broker can do in a step, with what enables it. -/
inductive ElectionDoes (m : Membership) (c : ElectionCluster) :
    ElectionEvent → ElectionCluster → Prop
  | checkRole {b} (top : (c.nodes b).loop = .top) (leads : (c.nodes b).raft.role = .leader) :
      ElectionDoes m c (.checkRole b)
        (c.setNode b { c.nodes b with loop := .leaderChecked (c.term b) })
  | readTerm {b checked} (loop : (c.nodes b).loop = .leaderChecked checked) :
      ElectionDoes m c (.readTerm b)
        (c.setNode b { c.nodes b with loop := .heartbeating (c.term b) (m.peerIds b) })
  | sendHeartbeat {b peer term pending} (loop : (c.nodes b).loop = .heartbeating term pending)
      (waits : peer ∈ pending) :
      ElectionDoes m c (.sendHeartbeat b peer)
        { c with heartbeats := (b, peer, ⟨term, b⟩) :: c.heartbeats }
  | heartbeatAnswered {b peer resp term pending}
      (loop : (c.nodes b).loop = .heartbeating term pending) (waits : peer ∈ pending)
      (sent : (peer, b, resp) ∈ c.heartbeatReplies) :
      ElectionDoes m c (.heartbeatAnswered b peer resp)
        (c.setNode b { (c.nodes b).commit ((c.nodes b).raft.heartbeatAnswered resp) with
          loop := .heartbeating term (pending.erase peer) })
  | heartbeatUnanswered {b peer term pending}
      (loop : (c.nodes b).loop = .heartbeating term pending) :
      ElectionDoes m c (.heartbeatUnanswered b peer)
        (c.setNode b { c.nodes b with loop := .heartbeating term (pending.erase peer) })
  | joinHeartbeats {b term} (loop : (c.nodes b).loop = .heartbeating term []) :
      ElectionDoes m c (.joinHeartbeats b) (c.setNode b { c.nodes b with loop := .top })
  | startElection {b} (top : (c.nodes b).loop = .top)
      (follows : (c.nodes b).raft.role ≠ .leader) :
      ElectionDoes m c (.startElection b)
        { c.setNode b { (c.nodes b).commit ((c.nodes b).raft.startElection b) with
            loop := .electing (c.term b + 1) 1 (m.peerIds b) } with
          votes := (b, c.term b + 1, b) :: c.votes }
  | sendVoteRequest {b peer term votes pending}
      (loop : (c.nodes b).loop = .electing term votes pending) (waits : peer ∈ pending) :
      ElectionDoes m c (.sendVoteRequest b peer)
        { c with voteRequests := (peer, ⟨term, b⟩) :: c.voteRequests }
  | countVote {b peer resp term votes pending}
      (loop : (c.nodes b).loop = .electing term votes pending) (waits : peer ∈ pending)
      (sent : (peer, b, resp) ∈ c.voteReplies) :
      ElectionDoes m c (.countVote b peer resp)
        (c.setNode b { (c.nodes b).commit ((c.nodes b).raft.countVote term resp) with
          loop := .electing term
            (if ((c.nodes b).raft.countVote term resp).reply then votes + 1 else votes)
            (pending.erase peer) })
  | voteUnanswered {b peer term votes pending}
      (loop : (c.nodes b).loop = .electing term votes pending) :
      ElectionDoes m c (.voteUnanswered b peer)
        (c.setNode b { c.nodes b with loop := .electing term votes (pending.erase peer) })
  | won {b term votes} (loop : (c.nodes b).loop = .electing term votes [])
      (reply : ((c.nodes b).raft.finishElection b m.brokerCount term votes).reply = true) :
      ElectionDoes m c (.finishElection b)
        { c.setNode b { (c.nodes b).commit
              ((c.nodes b).raft.finishElection b m.brokerCount term votes) with loop := .top } with
          elected := (b, ((c.nodes b).raft.finishElection b m.brokerCount term
            votes).state.currentTerm) :: c.elected }
  | lost {b term votes} (loop : (c.nodes b).loop = .electing term votes [])
      (reply : ((c.nodes b).raft.finishElection b m.brokerCount term votes).reply = false) :
      ElectionDoes m c (.finishElection b)
        (c.setNode b { (c.nodes b).commit
          ((c.nodes b).raft.finishElection b m.brokerCount term votes) with loop := .top })
  | granted {b req} (sent : (b, req) ∈ c.voteRequests)
      (reply : ((c.nodes b).raft.handleRequestVote req).reply.voteGranted = true) :
      ElectionDoes m c (.handleRequestVote b req)
        { c.setNode b ((c.nodes b).commit ((c.nodes b).raft.handleRequestVote req)) with
          voteReplies := (b, req.candidateId, ((c.nodes b).raft.handleRequestVote req).reply) ::
            c.voteReplies
          votes := (b, ((c.nodes b).raft.handleRequestVote req).state.currentTerm,
            req.candidateId) :: c.votes }
  | refused {b req} (sent : (b, req) ∈ c.voteRequests)
      (reply : ((c.nodes b).raft.handleRequestVote req).reply.voteGranted = false) :
      ElectionDoes m c (.handleRequestVote b req)
        { c.setNode b ((c.nodes b).commit ((c.nodes b).raft.handleRequestVote req)) with
          voteReplies := (b, req.candidateId, ((c.nodes b).raft.handleRequestVote req).reply) ::
            c.voteReplies }
  | handleControllerHeartbeat {b sender req} (sent : (sender, b, req) ∈ c.heartbeats) :
      ElectionDoes m c (.handleControllerHeartbeat b sender req)
        { c.setNode b ((c.nodes b).commit ((c.nodes b).raft.handleControllerHeartbeat req)) with
          heartbeatReplies := (b, sender,
            ((c.nodes b).raft.handleControllerHeartbeat req).reply) :: c.heartbeatReplies }
  | restart {b} :
      ElectionDoes m c (.restart b) (c.setNode b (Node.restart (c.nodes b).raftState))
  | restartInVote {b req} (sent : (b, req) ∈ c.voteRequests)
      (newer : req.term > (c.nodes b).raft.currentTerm) :
      ElectionDoes m c (.restartInVote b req)
        (c.setNode b (Node.restart
          ((c.nodes b).commit ((c.nodes b).raft.stepDown req.term)).raftState))

theorem sectionStep_does (h : sectionStep m c e = some c') : ElectionDoes m c e c' := by
  cases e with
  | checkRole b =>
      obtain ⟨henabled, hnext⟩ := Option.ite_none_right_eq_some.mp h
      obtain rfl := Option.some.inj hnext
      exact .checkRole henabled.1 henabled.2
  | readTerm b =>
      simp only [sectionStep] at h
      split at h
      · next hloop =>
          obtain rfl := Option.some.inj h
          exact .readTerm hloop
      · cases h
  | sendHeartbeat b peer =>
      simp only [sectionStep] at h
      split at h
      · next hloop =>
          obtain ⟨hwaits, hnext⟩ := Option.ite_none_right_eq_some.mp h
          obtain rfl := Option.some.inj hnext
          exact .sendHeartbeat hloop hwaits
      · cases h
  | heartbeatAnswered b peer resp =>
      simp only [sectionStep] at h
      split at h
      · next hloop =>
          obtain ⟨henabled, hnext⟩ := Option.ite_none_right_eq_some.mp h
          obtain rfl := Option.some.inj hnext
          exact .heartbeatAnswered hloop henabled.1 henabled.2
      · cases h
  | heartbeatUnanswered b peer =>
      simp only [sectionStep] at h
      split at h
      · next hloop =>
          obtain rfl := Option.some.inj h
          exact .heartbeatUnanswered hloop
      · cases h
  | joinHeartbeats b =>
      simp only [sectionStep] at h
      split at h
      · next hloop =>
          obtain rfl := Option.some.inj h
          exact .joinHeartbeats hloop
      · cases h
  | startElection b =>
      obtain ⟨henabled, hnext⟩ := Option.ite_none_right_eq_some.mp h
      obtain rfl := Option.some.inj hnext
      exact .startElection henabled.1 henabled.2
  | sendVoteRequest b peer =>
      simp only [sectionStep] at h
      split at h
      · next hloop =>
          obtain ⟨hwaits, hnext⟩ := Option.ite_none_right_eq_some.mp h
          obtain rfl := Option.some.inj hnext
          exact .sendVoteRequest hloop hwaits
      · cases h
  | countVote b peer resp =>
      simp only [sectionStep] at h
      split at h
      · next hloop =>
          obtain ⟨henabled, hnext⟩ := Option.ite_none_right_eq_some.mp h
          obtain rfl := Option.some.inj hnext
          exact .countVote hloop henabled.1 henabled.2
      · cases h
  | voteUnanswered b peer =>
      simp only [sectionStep] at h
      split at h
      · next hloop =>
          obtain rfl := Option.some.inj h
          exact .voteUnanswered hloop
      · cases h
  | finishElection b =>
      simp only [sectionStep] at h
      split at h
      · next hloop =>
          obtain rfl := Option.some.inj h
          split
          · next hwon => exact .won hloop hwon
          · next hlost => exact .lost hloop (Bool.eq_false_iff.mpr hlost)
      · cases h
  | handleRequestVote b req =>
      obtain ⟨hsent, hnext⟩ := Option.ite_none_right_eq_some.mp h
      obtain rfl := Option.some.inj hnext
      split
      · next hgranted => exact .granted hsent hgranted
      · next hrefused => exact .refused hsent (Bool.eq_false_iff.mpr hrefused)
  | handleControllerHeartbeat b sender req =>
      obtain ⟨hsent, hnext⟩ := Option.ite_none_right_eq_some.mp h
      obtain rfl := Option.some.inj hnext
      exact .handleControllerHeartbeat hsent
  | restart b =>
      obtain rfl := Option.some.inj h
      exact .restart
  | restartInVote b req =>
      obtain ⟨henabled, hnext⟩ := Option.ite_none_right_eq_some.mp h
      obtain rfl := Option.some.inj hnext
      exact .restartInVote henabled.1 henabled.2

theorem electionStep_does (h : electionStep m c e = some c') :
    e.broker ∈ m.allIds ∧ ElectionDoes m c e c' := by
  obtain ⟨hmember, hstep⟩ := Option.ite_none_right_eq_some.mp h
  exact ⟨hmember, sectionStep_does hstep⟩

end MiniKafka.Cluster
