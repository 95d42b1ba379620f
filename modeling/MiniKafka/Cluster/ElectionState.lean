import Mathlib.Data.List.Basic
import Mathlib.Order.Basic

/-!
# The election state of one broker

The fields of `ClusterController` that the election reads and writes, and its
critical sections: each definition below is what one holder of `mu_` does to
them. `persist_state` rewrites the file `raft_state`; a section lists what it
wrote, in order, because a broker can die between two writes. The election
deadline is left out: it only decides when `run_loop` calls `start_election`,
and the runs of the cluster let that happen at any time.
-/

namespace MiniKafka.Cluster

abbrev BrokerId := UInt32

inductive Role
  | follower
  | candidate
  | leader
  deriving DecidableEq, Repr

structure RequestVoteRequest where
  term : UInt32
  candidateId : BrokerId
  deriving DecidableEq, Repr

structure RequestVoteResponse where
  term : UInt32
  voteGranted : Bool
  deriving DecidableEq, Repr

structure ControllerHeartbeatRequest where
  term : UInt32
  leaderId : BrokerId
  deriving DecidableEq, Repr

structure ControllerHeartbeatResponse where
  term : UInt32
  success : Bool
  deriving DecidableEq, Repr

/-- The `int64_t` a broker id is cast to; `-1` stands for nobody. -/
def idAsInt (id : BrokerId) : Int := id.toNat

theorem idAsInt_injective : Function.Injective idAsInt := by
  intro a b h
  exact UInt32.toNat_inj.mp (Int.ofNat.inj h)

theorem idAsInt_ne_nobody (id : BrokerId) : idAsInt id ≠ -1 := by
  unfold idAsInt
  omega

structure RaftState where
  role : Role := .follower
  currentTerm : UInt32 := 0
  votedFor : Int := -1
  currentLeaderId : Int := -1
  deriving DecidableEq, Repr

/-- A fully written `raft_state` file. -/
structure RaftFile where
  term : UInt32
  votedFor : Int
  deriving DecidableEq, Repr

namespace RaftState

def persistState (s : RaftState) : RaftFile := ⟨s.currentTerm, s.votedFor⟩

/-- The state of a freshly constructed controller: no file leaves the defaults. -/
def loadState : Option RaftFile → RaftState
  | none => {}
  | some file => { currentTerm := file.term, votedFor := file.votedFor }

end RaftState

theorem loadState_role (file : Option RaftFile) :
    (RaftState.loadState file).role = .follower := by
  cases file <;> rfl

theorem loadState_leaderId (file : Option RaftFile) :
    (RaftState.loadState file).currentLeaderId = -1 := by
  cases file <;> rfl

/-- The outcome of one critical section: the state it leaves, the files it wrote,
and what it hands to its caller. -/
structure Section (α : Type) where
  state : RaftState
  written : List RaftFile
  reply : α

namespace RaftState

def stepDown (s : RaftState) (newTerm : UInt32) : Section Unit :=
  if newTerm > s.currentTerm then
    let s := { s with currentTerm := newTerm, votedFor := -1 }
    ⟨{ s with role := .follower }, [s.persistState], ()⟩
  else
    ⟨{ s with role := .follower }, [], ()⟩

def becomeLeader (s : RaftState) (selfId : BrokerId) : RaftState :=
  { s with role := .leader, currentLeaderId := idAsInt selfId }

def handleRequestVote (s : RaftState) (req : RequestVoteRequest) :
    Section RequestVoteResponse :=
  let sect : Section Unit :=
    if req.term > s.currentTerm then s.stepDown req.term else ⟨s, [], ()⟩
  let s := sect.state
  if req.term = s.currentTerm ∧
      (s.votedFor = -1 ∨ s.votedFor = idAsInt req.candidateId) then
    let s := { s with votedFor := idAsInt req.candidateId }
    ⟨s, sect.written ++ [s.persistState], ⟨s.currentTerm, true⟩⟩
  else
    ⟨s, sect.written, ⟨s.currentTerm, false⟩⟩

def handleControllerHeartbeat (s : RaftState) (req : ControllerHeartbeatRequest) :
    Section ControllerHeartbeatResponse :=
  if req.term < s.currentTerm then
    ⟨s, [], ⟨s.currentTerm, false⟩⟩
  else
    let sect : Section Unit :=
      if req.term > s.currentTerm then
        let s := { s with currentTerm := req.term, votedFor := -1 }
        ⟨s, [s.persistState], ()⟩
      else ⟨s, [], ()⟩
    let s := { sect.state with role := .follower, currentLeaderId := idAsInt req.leaderId }
    ⟨s, sect.written, ⟨s.currentTerm, true⟩⟩

/-- The first section of `start_election`. -/
def startElection (s : RaftState) (selfId : BrokerId) : Section Unit :=
  let s := { s with
    role := .candidate
    currentTerm := s.currentTerm + 1
    votedFor := idAsInt selfId }
  ⟨s, [s.persistState], ()⟩

/-- The section of one vote thread of `start_election` that got a response; the
reply says whether the vote is counted. -/
def countVote (s : RaftState) (termForThisElection : UInt32)
    (resp : RequestVoteResponse) : Section Bool :=
  if resp.term > s.currentTerm then
    let sect := s.stepDown resp.term
    ⟨sect.state, sect.written, false⟩
  else
    ⟨s, [], resp.term = termForThisElection && resp.voteGranted⟩

/-- The last section of `start_election`; the reply says whether it executed
`become_leader`. -/
def finishElection (s : RaftState) (selfId : BrokerId)
    (brokerCount termForThisElection votes : UInt32) : Section Bool :=
  if s.role ≠ .candidate ∨ s.currentTerm ≠ termForThisElection then
    ⟨s, [], false⟩
  else if votes ≥ brokerCount / 2 + 1 then
    ⟨s.becomeLeader selfId, [], true⟩
  else
    ⟨s, [], false⟩

/-- The section of one heartbeat thread of `broadcast_heartbeats` that got a response. -/
def heartbeatAnswered (s : RaftState) (resp : ControllerHeartbeatResponse) :
    Section Unit :=
  if resp.term > s.currentTerm then s.stepDown resp.term else ⟨s, [], ()⟩

end RaftState

/-- What a critical section may do to the persisted pair of term and vote. -/
inductive Ballot (s s' : RaftState) : Option BrokerId → Prop
  | kept (term : s'.currentTerm = s.currentTerm) (vote : s'.votedFor = s.votedFor) :
      Ballot s s' none
  | raised (term : s.currentTerm < s'.currentTerm) (vote : s'.votedFor = -1) :
      Ballot s s' none
  | cast {id : BrokerId} (vote : s'.votedFor = idAsInt id)
      (fresh : s.currentTerm < s'.currentTerm ∨
        s'.currentTerm = s.currentTerm ∧ (s.votedFor = -1 ∨ s.votedFor = idAsInt id)) :
      Ballot s s' (some id)

/-- A section that changes the term or the vote leaves the new pair in the file. -/
def Section.Persists {α : Type} (sect : Section α) (s : RaftState) : Prop :=
  match sect.written.getLast? with
  | some file => file = sect.state.persistState
  | none => sect.state.persistState = s.persistState

namespace RaftState

variable (s : RaftState)

theorem stepDown_ballot (newTerm : UInt32) : Ballot s (s.stepDown newTerm).state none := by
  unfold stepDown
  split
  · next h => exact .raised h rfl
  · exact .kept rfl rfl

theorem stepDown_persists (newTerm : UInt32) : (s.stepDown newTerm).Persists s := by
  unfold stepDown
  split <;> rfl

theorem stepDown_role (newTerm : UInt32) : (s.stepDown newTerm).state.role = .follower := by
  unfold stepDown
  split <;> rfl

/-- After a newer term is taken over, the vote is cast and written, or nothing is done. -/
theorem handleRequestVote_cases (req : RequestVoteRequest) :
    let sect : Section Unit :=
      if req.term > s.currentTerm then s.stepDown req.term else ⟨s, [], ()⟩
    let voted := { sect.state with votedFor := idAsInt req.candidateId }
    (req.term = sect.state.currentTerm ∧
      s.handleRequestVote req = ⟨voted, sect.written ++ [voted.persistState],
        ⟨voted.currentTerm, true⟩⟩) ∨
      s.handleRequestVote req = ⟨sect.state, sect.written, ⟨sect.state.currentTerm, false⟩⟩ := by
  unfold handleRequestVote
  generalize (if req.term > s.currentTerm then s.stepDown req.term
    else (⟨s, [], ()⟩ : Section Unit)) = sect
  dsimp only
  split
  · next hgranted => exact Or.inl ⟨hgranted.1, rfl⟩
  · exact Or.inr rfl

/-- The vote handler casts a vote exactly when it grants it. -/
theorem handleRequestVote_ballot (req : RequestVoteRequest) :
    Ballot s (s.handleRequestVote req).state
      (if (s.handleRequestVote req).reply.voteGranted then
        some req.candidateId else none) := by
  unfold handleRequestVote stepDown
  by_cases hlt : s.currentTerm < req.term
  · simp only [hlt, if_true, true_and, true_or]
    exact .cast rfl (Or.inl hlt)
  · simp only [hlt, if_false]
    split
    · next h => exact .cast rfl (Or.inr ⟨rfl, h.2⟩)
    · exact .kept rfl rfl

theorem handleRequestVote_persists (req : RequestVoteRequest) :
    (s.handleRequestVote req).Persists s := by
  unfold handleRequestVote stepDown
  by_cases hlt : s.currentTerm < req.term
  · simp [hlt, Section.Persists]
  · simp only [hlt, if_false]
    split <;> rfl

theorem handleRequestVote_term (req : RequestVoteRequest) :
    (s.handleRequestVote req).reply.term = (s.handleRequestVote req).state.currentTerm := by
  rcases s.handleRequestVote_cases req with ⟨-, hcast⟩ | hrefused
  · rw [hcast]
  · rw [hrefused]

theorem handleControllerHeartbeat_ballot (req : ControllerHeartbeatRequest) :
    Ballot s (s.handleControllerHeartbeat req).state none := by
  unfold handleControllerHeartbeat
  split
  · exact .kept rfl rfl
  · by_cases hlt : s.currentTerm < req.term
    · simp only [hlt, if_true]
      exact .raised hlt rfl
    · simp only [hlt, if_false]
      exact .kept rfl rfl

theorem handleControllerHeartbeat_persists (req : ControllerHeartbeatRequest) :
    (s.handleControllerHeartbeat req).Persists s := by
  unfold handleControllerHeartbeat
  split
  · rfl
  · by_cases hlt : s.currentTerm < req.term
    · simp only [hlt, if_true]
      rfl
    · simp only [hlt, if_false]
      rfl

theorem startElection_ballot (selfId : BrokerId) (h : s.currentTerm ≠ 4294967295) :
    Ballot s (s.startElection selfId).state (some selfId) := by
  refine .cast rfl (Or.inl ?_)
  have hne : s.currentTerm.toNat ≠ 4294967295 := fun he => h (UInt32.toNat_inj.mp he)
  have hlt := s.currentTerm.toNat_lt
  simp only [startElection, UInt32.lt_iff_toNat_lt, UInt32.toNat_add, UInt32.toNat_one]
  omega

theorem startElection_persists (selfId : BrokerId) :
    (s.startElection selfId).Persists s := rfl

theorem countVote_ballot (term : UInt32) (resp : RequestVoteResponse) :
    Ballot s (s.countVote term resp).state none := by
  unfold countVote
  split
  · exact s.stepDown_ballot resp.term
  · exact .kept rfl rfl

theorem countVote_persists (term : UInt32) (resp : RequestVoteResponse) :
    (s.countVote term resp).Persists s := by
  unfold countVote
  split
  · exact s.stepDown_persists resp.term
  · rfl

theorem countVote_reply {term : UInt32} {resp : RequestVoteResponse}
    (h : (s.countVote term resp).reply = true) :
    resp.term = term ∧ resp.voteGranted = true := by
  revert h
  simp only [countVote]
  split <;> simp

/-- A candidate of this term with a majority becomes the leader. Otherwise nothing happens. -/
theorem finishElection_cases (selfId : BrokerId) (brokerCount term votes : UInt32) :
    s.finishElection selfId brokerCount term votes = ⟨s, [], false⟩ ∨
      (s.finishElection selfId brokerCount term votes = ⟨s.becomeLeader selfId, [], true⟩ ∧
        s.currentTerm = term ∧ brokerCount / 2 + 1 ≤ votes) := by
  unfold finishElection
  split
  · exact .inl rfl
  · next hstill =>
      split
      · next hmaj => exact .inr ⟨rfl, by simpa using (not_or.mp hstill).2, hmaj⟩
      · exact .inl rfl

theorem finishElection_ballot (selfId : BrokerId) (brokerCount term votes : UInt32) :
    Ballot s (s.finishElection selfId brokerCount term votes).state none := by
  rcases s.finishElection_cases selfId brokerCount term votes with hkept | ⟨hwon, -⟩
  · rw [hkept]
    exact .kept rfl rfl
  · rw [hwon]
    exact .kept rfl rfl

theorem finishElection_persists (selfId : BrokerId) (brokerCount term votes : UInt32) :
    (s.finishElection selfId brokerCount term votes).Persists s := by
  rcases s.finishElection_cases selfId brokerCount term votes with hkept | ⟨hwon, -⟩
  · rw [hkept]
    rfl
  · rw [hwon]
    rfl

theorem finishElection_reply {selfId : BrokerId} {brokerCount term votes : UInt32}
    (h : (s.finishElection selfId brokerCount term votes).reply = true) :
    (s.finishElection selfId brokerCount term votes).state = s.becomeLeader selfId ∧
      s.currentTerm = term ∧ brokerCount / 2 + 1 ≤ votes := by
  rcases s.finishElection_cases selfId brokerCount term votes with hkept | ⟨hwon, hterm, hmaj⟩
  · rw [hkept] at h
    cases h
  · rw [hwon]
    exact ⟨rfl, hterm, hmaj⟩

theorem heartbeatAnswered_ballot (resp : ControllerHeartbeatResponse) :
    Ballot s (s.heartbeatAnswered resp).state none := by
  unfold heartbeatAnswered
  split
  · exact s.stepDown_ballot resp.term
  · exact .kept rfl rfl

theorem heartbeatAnswered_persists (resp : ControllerHeartbeatResponse) :
    (s.heartbeatAnswered resp).Persists s := by
  unfold heartbeatAnswered
  split
  · exact s.stepDown_persists resp.term
  · rfl

end RaftState

/-- Whoever is the leader after a section was the leader before it, in the same term. -/
def KeepsOffice (s s' : RaftState) : Prop :=
  s'.role = .leader → s.role = .leader ∧ s'.currentTerm = s.currentTerm

namespace RaftState

variable (s : RaftState)

theorem stepDown_office (newTerm : UInt32) : KeepsOffice s (s.stepDown newTerm).state := by
  intro h
  rw [stepDown_role] at h
  cases h

/-- Granting or refusing a vote touches neither the role nor the term. -/
theorem handleRequestVote_vote_only (req : RequestVoteRequest) :
    let sect : Section Unit :=
      if req.term > s.currentTerm then s.stepDown req.term else ⟨s, [], ()⟩
    (s.handleRequestVote req).state.role = sect.state.role ∧
      (s.handleRequestVote req).state.currentTerm = sect.state.currentTerm := by
  rcases s.handleRequestVote_cases req with ⟨-, hcast⟩ | hrefused
  · rw [hcast]
    exact ⟨rfl, rfl⟩
  · rw [hrefused]
    exact ⟨rfl, rfl⟩

theorem stepDown_leaderId (newTerm : UInt32) :
    (s.stepDown newTerm).state.currentLeaderId = s.currentLeaderId := by
  unfold stepDown
  split
  · rfl
  · rfl

theorem handleRequestVote_role (req : RequestVoteRequest) :
    (s.handleRequestVote req).state.role =
      if req.term > s.currentTerm then .follower else s.role := by
  rw [(s.handleRequestVote_vote_only req).1]
  split
  · exact s.stepDown_role req.term
  · rfl

theorem handleRequestVote_leaderId (req : RequestVoteRequest) :
    (s.handleRequestVote req).state.currentLeaderId = s.currentLeaderId := by
  have hdown : (if req.term > s.currentTerm then s.stepDown req.term
      else (⟨s, [], ()⟩ : Section Unit)).state.currentLeaderId = s.currentLeaderId := by
    split
    · exact s.stepDown_leaderId req.term
    · rfl
  rcases s.handleRequestVote_cases req with ⟨-, hcast⟩ | hrefused
  · rw [hcast]
    exact hdown
  · rw [hrefused]
    exact hdown

theorem handleRequestVote_office (req : RequestVoteRequest) :
    KeepsOffice s (s.handleRequestVote req).state := by
  obtain ⟨hrole, hterm⟩ := s.handleRequestVote_vote_only req
  intro h
  rw [hrole] at h
  rw [hterm]
  split at h
  · exact absurd (s.stepDown_role req.term) (by simp [h])
  · next hle => simpa [hle] using h

theorem handleControllerHeartbeat_office (req : ControllerHeartbeatRequest) :
    KeepsOffice s (s.handleControllerHeartbeat req).state := by
  unfold handleControllerHeartbeat
  split
  · exact fun h => ⟨h, rfl⟩
  · intro h
    cases h

theorem startElection_office (selfId : BrokerId) :
    KeepsOffice s (s.startElection selfId).state := by
  intro h
  cases h

theorem countVote_office (term : UInt32) (resp : RequestVoteResponse) :
    KeepsOffice s (s.countVote term resp).state := by
  unfold countVote
  split
  · exact s.stepDown_office resp.term
  · exact fun h => ⟨h, rfl⟩

theorem heartbeatAnswered_office (resp : ControllerHeartbeatResponse) :
    KeepsOffice s (s.heartbeatAnswered resp).state := by
  unfold heartbeatAnswered
  split
  · exact s.stepDown_office resp.term
  · exact fun h => ⟨h, rfl⟩

/-- Only the last section of `start_election` makes a leader, and only of its own term. -/
theorem finishElection_office {selfId : BrokerId} {brokerCount term votes : UInt32}
    (h : (s.finishElection selfId brokerCount term votes).reply = false) :
    KeepsOffice s (s.finishElection selfId brokerCount term votes).state := by
  rcases s.finishElection_cases selfId brokerCount term votes with hkept | ⟨hwon, -⟩
  · rw [hkept]
    exact fun hrole => ⟨hrole, rfl⟩
  · rw [hwon] at h
    cases h

end RaftState

end MiniKafka.Cluster
